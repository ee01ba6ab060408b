import Cwhost.Memory.Heap

/-!
# The heap partitions its range

`WF` is the allocator's invariant: the free list is separated (sorted, positive, no two ranges
overlapping or touching), live sizes are positive, and every address of the heap lies in exactly
one free range or exactly one live allocation, no address outside in any. Every mutator moves
bytes between the two sides, which is what `WF.of_conserved` asks of it:

* `alloc_spec`, `free_spec`, `shrink_spec`, `growInPlace_spec`, `realloc_spec`: what each
  method does, when it ends normally and when it raises. An exception of any of them is a
  `HostError` and leaves the heap and the guest as they were.
* `run_wf`: the invariant holds after any sequence of calls, each succeeding or raising.
* `WF.freeList_eq`: the free list is a function of the live allocations.
* `run_partitioned`: the partition over whole runs, and what follows from it.
-/

namespace Cwhost.Heap

open Lib

variable {M : ByteMemory} {h h' : Heap M}

/-- **The partition invariant.** -/
structure WF (h : Heap M) : Prop where
  sep : Separated h.freeList
  live_pos : ∀ e ∈ h.allocations.items, 0 < e.2
  part : ∀ x, (if Covers h.freeList x then 1 else 0) + hits h.allocations.items x =
    if Has (h.base, h.size) x then 1 else 0
  accessible : h.guest.Accessible h.base h.size

/-- The same address range, before and after. -/
structure SameRange (h h' : Heap M) : Prop where
  base : h'.base = h.base
  size : h'.size = h.size

theorem SameRange.rfl : SameRange h h := ⟨Eq.refl _, Eq.refl _⟩

/-- A step that only moves bytes between free and live keeps the invariant. -/
theorem WF.of_conserved (hw : WF h) (hr : SameRange h h')
    (hacc : h'.guest.Accessible h.base h.size) (hsep : Separated h'.freeList)
    (hpos : ∀ e ∈ h'.allocations.items, 0 < e.2)
    (hx : ∀ x, (if Covers h'.freeList x then 1 else 0) + hits h'.allocations.items x =
      (if Covers h.freeList x then 1 else 0) + hits h.allocations.items x) : WF h' := by
  refine ⟨hsep, hpos, fun x => ?_, ?_⟩
  · rw [hx x, hw.part x, hr.base, hr.size]
  · rw [hr.base, hr.size]
    exact hacc

/-! ## Free and live addresses -/

theorem WF.inside_of_free (hw : WF h) {x : Nat} (hx : Covers h.freeList x) :
    Has (h.base, h.size) x := by
  by_contra hn
  have := hw.part x
  rw [if_pos hx, if_neg hn] at this
  omega

theorem WF.inside_of_live (hw : WF h) {x : Nat} (hx : Covers h.allocations.items x) :
    Has (h.base, h.size) x := by
  by_contra hn
  have h1 := hw.part x
  have h2 := hits_pos_iff.mpr hx
  rw [if_neg hn] at h1
  omega

theorem WF.not_live_of_free (hw : WF h) {x : Nat} (hx : Covers h.freeList x) :
    ¬ Covers h.allocations.items x := by
  intro hl
  have h1 := hw.part x
  have h2 := hits_pos_iff.mpr hl
  rw [if_pos hx] at h1
  split at h1 <;> omega

theorem WF.hits_live_le (hw : WF h) (x : Nat) : hits h.allocations.items x ≤ 1 := by
  have := hw.part x
  split at this <;> split at this <;> omega

theorem covers_of_get? {d : Dict Nat Nat} {a n x : Nat} (h : d.get? a = some n)
    (hx : Has (a, n) x) : Covers d.items x :=
  ⟨(a, n), Dict.get?_eq_some_iff.mp h, hx⟩

theorem WF.size_pos (hw : WF h) {a n : Nat} (ha : h.allocations.get? a = some n) : 0 < n :=
  hw.live_pos (a, n) (Dict.get?_eq_some_iff.mp ha)

/-- The start of a range of free bytes is no live address. -/
theorem WF.get?_eq_none_of_free (hw : WF h) {a : Nat} (ha : Covers h.freeList a) :
    h.allocations.get? a = none := by
  cases hg : h.allocations.get? a with
  | none => rfl
  | some n =>
    have hn := hw.size_pos hg
    exact absurd (covers_of_get? hg ⟨le_refl _, by simpa using hn⟩) (hw.not_live_of_free ha)

/-- Live allocations at different addresses share no byte. -/
theorem WF.live_disjoint (hw : WF h) {a n b m : Nat} (ha : h.allocations.get? a = some n)
    (hb : h.allocations.get? b = some m) (hab : a ≠ b) {x : Nat} (hx : Has (a, n) x) :
    ¬ Has (b, m) x := by
  intro hx'
  have h1 := hw.hits_live_le x
  rw [hits_perm (Dict.perm_erase ha), hits_cons, if_pos hx] at h1
  have hb' : (h.allocations.erase a).get? b = some m := by
    rw [Dict.get?_erase_of_ne _ (Ne.symm hab), hb]
  have h2 := hits_pos_iff.mpr (covers_of_get? hb' hx')
  omega

/-- A live allocation is accessible. -/
theorem WF.live_accessible (hw : WF h) {a n : Nat} (ha : h.allocations.get? a = some n) :
    h.guest.Accessible a n := by
  have hn := hw.size_pos ha
  have h1 := hw.inside_of_live (covers_of_get? ha ⟨le_refl a, by simpa using hn⟩)
  have h2 := hw.inside_of_live (x := a + n - 1)
    (covers_of_get? ha ⟨by simp only; omega, by simp only; omega⟩)
  unfold Has at h1 h2
  exact hw.accessible.sub h1.1 (by simp only at h2; omega)

/-! ## Hits of an updated table -/

theorem hits_set (d : Dict Nat Nat) (a n x : Nat) :
    hits (d.set a n).items x = hits (d.erase a).items x + if Has (a, n) x then 1 else 0 := by
  rw [hits_perm (Dict.set_perm d a n), hits_cons]

theorem hits_erase {d : Dict Nat Nat} {a n : Nat} (h : d.get? a = some n) (x : Nat) :
    hits d.items x = hits (d.erase a).items x + if Has (a, n) x then 1 else 0 := by
  rw [hits_perm (Dict.perm_erase h), hits_cons]

theorem hits_erase_none {d : Dict Nat Nat} {a : Nat} (h : d.get? a = none) (x : Nat) :
    hits (d.erase a).items x = hits d.items x := by
  show hits (d.items.filter fun e => decide (e.1 ≠ a)) x = hits d.items x
  rw [Dict.filter_ne_of_notMem (Dict.get?_eq_none_iff.mp h)]

theorem pos_set {d : Dict Nat Nat} (hd : ∀ e ∈ d.items, 0 < e.2) {a n : Nat} (hn : 0 < n) :
    ∀ e ∈ (d.set a n).items, 0 < e.2 := by
  intro e he
  rcases Dict.mem_set.mp he with rfl | he
  · exact hn
  · exact hd e he.1

theorem pos_erase {d : Dict Nat Nat} (hd : ∀ e ∈ d.items, 0 < e.2) {a : Nat} :
    ∀ e ∈ (d.erase a).items, 0 < e.2 := fun e he => hd e (Dict.mem_erase.mp he).1

/-! ## `alloc` -/

theorem le_aligned (value : Nat) {alignment : Nat} (h : 0 < alignment) :
    value ≤ aligned value alignment := Guest.le_alignUp value h

/-- Where `firstFit` carves: one range of the list, from its first aligned address on. -/
theorem firstFit_some {amount align : Nat} (hal : 0 < align) {l : List Range} {a : Nat}
    {l' : List Range} (h : firstFit amount align l = some (a, l')) :
    ∃ pre start available lead post, l = pre ++ (start, available) :: post ∧ a = start + lead ∧
      lead + amount ≤ available ∧ l' = pre ++ leftover start available lead amount ++ post := by
  induction l generalizing a l' with
  | nil => simp [firstFit] at h
  | cons e rest ih =>
    obtain ⟨start, available⟩ := e
    have hle := le_aligned start hal
    unfold firstFit at h
    simp only at h
    split at h
    · obtain ⟨r, hr, he⟩ := Option.map_eq_some_iff.mp h
      simp only [Prod.mk.injEq] at he
      obtain ⟨rfl, rfl⟩ := he
      obtain ⟨pre, s, v, lead, post, h1, h2, h3, h4⟩ := ih hr
      exact ⟨(start, available) :: pre, s, v, lead, post, by rw [h1]; rfl, h2, h3, by rw [h4]; rfl⟩
    · rename_i hfit
      simp only [Option.some.injEq, Prod.mk.injEq] at h
      obtain ⟨rfl, rfl⟩ := h
      refine ⟨[], start, available, aligned start align - start, rest, rfl, by omega, by omega, ?_⟩
      unfold leftover
      rw [show start + (aligned start align - start) + amount = aligned start align + amount by
        omega]
      rfl

/-- What a successful allocation has done. -/
structure Allocated (h h' : Heap M) (a n : Nat) : Prop where
  wf : WF h'
  range : SameRange h h'
  guest : h'.guest = h.guest
  fresh : ∀ x, Has (a, n) x → Covers h.freeList x
  table : h'.allocations = h.allocations.set a n

theorem WF.allocated (hw : WF h) {pre post : List Range} {start available lead n : Nat}
    (hl : h.freeList = pre ++ (start, available) :: post) (hfit : lead + n ≤ available)
    (hn : 0 < n) :
    Allocated h { h with
      freeList := pre ++ leftover start available lead n ++ post
      allocations := h.allocations.set (start + lead) n } (start + lead) n := by
  have hsep := hw.sep
  rw [hl] at hsep
  obtain ⟨hs, hc⟩ := carve_spec hsep hfit hn
  have hfresh : ∀ x, Has (start + lead, n) x → Covers h.freeList x := fun x hx => by
    rw [hl, covers_append, covers_cons]
    refine Or.inr (Or.inl ?_)
    unfold Has at hx ⊢
    simp only at hx ⊢
    omega
  have hnone := hw.get?_eq_none_of_free (hfresh (start + lead) ⟨le_refl _, by simpa using hn⟩)
  refine ⟨hw.of_conserved ⟨rfl, rfl⟩ hw.accessible hs (pos_set hw.live_pos hn) fun x => ?_,
    ⟨rfl, rfl⟩, rfl, hfresh, rfl⟩
  simp only [hits_set, hits_erase_none hnone]
  have hcx := hc x
  rw [← hl] at hcx
  by_cases hx : Has (start + lead, n) x
  · rw [if_neg (fun hc' => (hcx.mp hc').2 hx), if_pos hx, if_pos (hfresh x hx)]
    omega
  · rw [if_neg hx, Nat.add_zero]
    exact congrArg (· + _) (if_congr (by rw [hcx]; tauto) rfl rfl)

/-- **`alloc`** takes `max size 1` free bytes, or raises and changes nothing. -/
theorem alloc_spec (hw : WF h) (size align : Int) :
    wp (alloc size align) (fun a h' => Allocated h h' a (max size.toNat 1))
      (fun e h' => e.isHostError = true ∧ h' = h) h := by
  simp only [alloc, validateSize, validateAlign, wp_bind, wp_ite, wp_throw, wp_pure, wp_get]
  refine ⟨fun _ => ⟨rfl, trivial⟩, fun _ => ⟨fun _ => ⟨rfl, trivial⟩, fun hal => ?_⟩⟩
  cases hf : firstFit (max size.toNat 1) align.toNat h.freeList with
  | none => exact ⟨rfl, rfl⟩
  | some r =>
    obtain ⟨a, l'⟩ := r
    obtain ⟨pre, start, available, lead, post, h1, rfl, h3, rfl⟩ :=
      firstFit_some (by omega) hf
    exact hw.allocated h1 h3 (by omega)

/-- The address a successful `alloc` returns was not live. -/
theorem Allocated.get?_eq_none (hw : WF h) {a n : Nat} (hn : 0 < n) (ha : Allocated h h' a n) :
    h.allocations.get? a = none :=
  hw.get?_eq_none_of_free (ha.fresh a ⟨le_refl _, by simpa using hn⟩)

/-! ## `free` -/

/-- What a successful `free` has done. -/
structure Freed (h h' : Heap M) (a : Nat) : Prop where
  wf : WF h'
  range : SameRange h h'
  guest : h'.guest = h.guest
  table : h'.allocations = h.allocations.erase a

theorem WF.freed (hw : WF h) {a n : Nat} (ha : h.allocations.get? a = some n) :
    Freed h { h with
      freeList := insertRange h.freeList (a, n)
      allocations := h.allocations.erase a } a := by
  have hn := hw.size_pos ha
  obtain ⟨hs, hc⟩ := insertRange_spec hw.sep (r := (a, n)) hn
  refine ⟨hw.of_conserved ⟨rfl, rfl⟩ hw.accessible hs (pos_erase hw.live_pos) fun x => ?_,
    ⟨rfl, rfl⟩, rfl, rfl⟩
  show _ + hits (h.allocations.erase a).items x = _
  rw [hits_erase ha x]
  have hcx := hc x
  by_cases hx : Has (a, n) x
  · have hnf : ¬ Covers h.freeList x := fun hf =>
      hw.not_live_of_free hf (covers_of_get? ha hx)
    rw [if_pos (hcx.mpr (Or.inr hx)), if_neg hnf, if_pos hx]
    omega
  · rw [if_neg hx, Nat.add_zero]
    exact congrArg (· + _) (if_congr (by rw [hcx]; tauto) rfl rfl)

/-- **`free`** returns a live block to the free list, or raises and changes nothing. -/
theorem free_spec (hw : WF h) (address : Int) :
    wp (free address)
      (fun _ h' => (∃ n, h.allocations.find? address = some n) ∧ Freed h h' address.toNat)
      (fun e h' => e.isHostError = true ∧ h' = h ∧ h.allocations.find? address = none) h := by
  simp only [free, wp_bind, wp_get]
  cases hf : h.allocations.find? address with
  | none => exact ⟨rfl, rfl, rfl⟩
  | some n =>
    obtain ⟨ha, -⟩ := Dict.find?_eq_some hf
    have hn := hw.size_pos ha
    simp only [wp_bind, wp_set, insertFree, if_neg (Nat.pos_iff_ne_zero.mp hn), wp_modify]
    exact ⟨⟨n, rfl⟩, hw.freed ha⟩

/-! ## `realloc` -/

/-- What a resize that keeps the address has done. -/
structure Resized (h h' : Heap M) (a n : Nat) : Prop where
  wf : WF h'
  range : SameRange h h'
  guest : h'.guest = h.guest
  table : h'.allocations = h.allocations.set a n

/-- **`_shrink`** frees the tail. -/
theorem shrink_spec (hw : WF h) {a old amount : Nat} (ha : h.allocations.get? a = some old)
    (h0 : 0 < amount) (hle : amount ≤ old) :
    wp (shrink a old amount) (fun p h' => p = a ∧ Resized h h' a amount) (fun _ _ => False) h := by
  simp only [shrink, wp_bind, wp_ite, wp_pure, wp_modify, insertFree]
  refine ⟨fun hlt => ⟨fun h1 => by omega, fun _ => ?_⟩, fun hge => ?_⟩
  · obtain ⟨hs, hc⟩ := insertRange_spec hw.sep (r := (a + amount, old - amount))
      (by simp only; omega)
    refine ⟨trivial, hw.of_conserved ⟨rfl, rfl⟩ hw.accessible hs (pos_set hw.live_pos h0)
      fun x => ?_, ⟨rfl, rfl⟩, rfl, rfl⟩
    simp only [hits_set]
    rw [hits_erase ha x]
    have hcx := hc x
    by_cases hx : Has (a, old) x
    · have hnf : ¬ Covers h.freeList x := fun hf =>
        hw.not_live_of_free hf (covers_of_get? ha hx)
      rw [if_neg hnf, if_pos hx]
      by_cases hx' : Has (a, amount) x
      · have hnt : ¬ Has (a + amount, old - amount) x := by
          unfold Has at hx' ⊢
          simp only at hx' ⊢
          omega
        rw [if_pos hx', if_neg (by rw [hcx]; tauto)]
      · have ht : Has (a + amount, old - amount) x := by
          unfold Has at hx hx' ⊢
          simp only at hx hx' ⊢
          omega
        rw [if_neg hx', if_pos (hcx.mpr (Or.inr ht))]
        omega
    · have hnt : ¬ Has (a + amount, old - amount) x := by
        unfold Has at hx ⊢
        simp only at hx ⊢
        omega
      have hna : ¬ Has (a, amount) x := by
        unfold Has at hx ⊢
        simp only at hx ⊢
        omega
      rw [if_neg hx, if_neg hna]
      exact congrArg (· + _) (if_congr (by rw [hcx]; tauto) rfl rfl)
  · have he : amount = old := by omega
    subst he
    refine ⟨trivial, hw.of_conserved ⟨rfl, rfl⟩ hw.accessible hw.sep (pos_set hw.live_pos h0)
      fun x => ?_, ⟨rfl, rfl⟩, rfl, rfl⟩
    simp only [hits_set]
    rw [hits_erase ha x]

/-- The range `takeFront` shortens. -/
theorem takeFront_some {l l' : List Range} {i extra : Nat} (h : takeFront l i extra = some l') :
    ∃ pre start available post, l = pre ++ (start, available) :: post ∧
      l[i]? = some (start, available) ∧ extra ≤ available ∧
      l' = pre ++ leftover start available 0 extra ++ post := by
  unfold takeFront at h
  cases hi : l[i]? with
  | none => rw [hi] at h; exact absurd h (by simp)
  | some r =>
    obtain ⟨start, available⟩ := r
    obtain ⟨hlt, hget⟩ := List.getElem?_eq_some_iff.mp hi
    have hsplit : l = l.take i ++ (start, available) :: l.drop (i + 1) := by
      rw [← hget, ← List.drop_eq_getElem_cons hlt, List.take_append_drop]
    rw [hi] at h
    simp only at h
    split at h
    · exact absurd h (by simp)
    · split at h
      · rename_i heq
        refine ⟨l.take i, start, available, l.drop (i + 1), hsplit, rfl, by omega, ?_⟩
        rw [← Option.some.inj h, List.eraseIdx_eq_take_drop_succ]
        simp [leftover, heq]
      · refine ⟨l.take i, start, available, l.drop (i + 1), hsplit, rfl, by omega, ?_⟩
        rw [← Option.some.inj h, List.set_eq_take_append_cons_drop, if_pos hlt]
        have hne : available - extra ≠ 0 := by omega
        simp [leftover, hne]

/-- **`_grow_in_place`** takes bytes of the free range after the block, or does nothing. -/
theorem growInPlace_spec (hw : WF h) {a old amount : Nat} (ha : h.allocations.get? a = some old)
    (hlt : old < amount) :
    wp (growInPlace a old amount)
      (fun grown h' => if grown = true then Resized h h' a amount else h' = h)
      (fun _ _ => False) h := by
  simp only [growInPlace, wp_bind, wp_ite, wp_pure, wp_get]
  refine ⟨fun h0 => by omega, fun _ => ?_⟩
  cases hf : h.freeList.findIdx? fun r => decide (r.1 = a + old) with
  | none => simp
  | some i =>
    simp only
    cases ht : takeFront h.freeList i (amount - old) with
    | none => simp
    | some l' =>
      obtain ⟨pre, start, available, post, hl, hi, hle, rfl⟩ := takeFront_some ht
      obtain ⟨hlt', hp, -⟩ := List.findIdx?_eq_some_iff_getElem.mp hf
      have hstart : start = a + old := by
        rw [(List.getElem?_eq_some_iff.mp hi).2] at hp
        simpa using hp
      subst hstart
      simp only [wp_bind, wp_set, wp_pure, if_true]
      have hsep := hw.sep
      rw [hl] at hsep
      obtain ⟨hs, hc⟩ := carve_spec hsep (show 0 + (amount - old) ≤ available by omega)
        (by omega)
      refine ⟨hw.of_conserved ⟨rfl, rfl⟩ hw.accessible hs
        (pos_set hw.live_pos (by omega)) fun x => ?_, ⟨rfl, rfl⟩, rfl, rfl⟩
      simp only [hits_set]
      rw [hits_erase ha x]
      have hcx := hc x
      rw [← hl, Nat.add_zero] at hcx
      by_cases hx : Has (a + old, amount - old) x
      · have hfree : Covers h.freeList x := by
          rw [hl, covers_append, covers_cons]
          refine Or.inr (Or.inl ?_)
          unfold Has at hx ⊢
          simp only at hx ⊢
          omega
        have hna : ¬ Has (a, old) x := fun hn =>
          hw.not_live_of_free hfree (covers_of_get? ha hn)
        have ha' : Has (a, amount) x := by
          unfold Has at hx ⊢
          simp only at hx ⊢
          omega
        rw [if_neg (fun hc' => (hcx.mp hc').2 hx), if_pos hfree, if_pos ha', if_neg hna]
        omega
      · have he : Has (a, amount) x ↔ Has (a, old) x := by
          unfold Has at hx ⊢
          simp only at hx ⊢
          omega
        rw [if_congr he rfl rfl]
        exact congrArg (· + _) (if_congr (by rw [hcx]; tauto) rfl rfl)

/-- What a successful `realloc` of the block `a` to `p` has done. -/
structure Reallocated (h h' : Heap M) (a old amount p : Nat) : Prop where
  wf : WF h'
  range : SameRange h h'
  fresh : p ≠ a → h.allocations.get? p = none
  live : h'.allocations.get? p = some amount
  released : p ≠ a → h'.allocations.get? a = none
  others : ∀ q, q ≠ a → q ≠ p → h'.allocations.get? q = h.allocations.get? q
  mapped : ∀ x, M.mapped h'.guest.uc x ↔ M.mapped h.guest.uc x
  /-- The block keeps its contents. -/
  copied : ByteMemory.bytes h'.guest.uc p (min old amount) =
    ByteMemory.bytes h.guest.uc a (min old amount)
  /-- No byte of a live block is written. -/
  frame : ∀ x, Covers h.allocations.items x → h'.guest.byte x = h.guest.byte x

theorem Resized.reallocated {a old amount : Nat} (hr : Resized h h' a amount) :
    Reallocated h h' a old amount a where
  wf := hr.wf
  range := hr.range
  fresh hne := absurd rfl hne
  live := by rw [hr.table, Dict.get?_set_self]
  released hne := absurd rfl hne
  others q hq _ := by rw [hr.table, Dict.get?_set_of_ne _ _ hq]
  mapped _ := by rw [hr.guest]
  copied := by rw [hr.guest]
  frame _ _ := by rw [hr.guest]

/-- The guest of a heap is replaced by one that maps the same addresses. -/
theorem WF.withGuest (hw : WF h) {g : Guest M} (hm : ∀ x, M.mapped g.uc x ↔ M.mapped h.guest.uc x) :
    WF { h with guest := g } :=
  ⟨hw.sep, hw.live_pos, hw.part,
    ⟨fun x h1 h2 => (hm x).mpr (hw.accessible.mapped x h1 h2), hw.accessible.below⟩⟩

/-- The move of `realloc`: allocate, copy, free. -/
theorem move_spec (hw : WF h) {a old amount : Nat} (ha : h.allocations.get? a = some old)
    (hlt : old < amount) {p : Nat} {h₁ : Heap M} (hal : Allocated h h₁ p amount)
    {Q : Nat → Heap M → Prop} (hQ : ∀ h', Reallocated h h' a old amount p → Q p h')
    (E : Exc → Heap M → Prop) :
    wp (do
        if min old amount ≠ 0 then
          let data ← onGuest (Guest.read a (min old amount))
          onGuest (Guest.write p data)
        free (a : Int)
        return p) Q E h₁ := by
  have h0 := hw.size_pos ha
  have hnone := hal.get?_eq_none hw (by omega)
  have hpa : p ≠ a := by
    rintro rfl
    rw [hnone] at ha
    exact absurd ha (by simp)
  have hmin : min old amount = old := by omega
  have ha₁ : h₁.allocations.get? a = some old := by
    rw [hal.table, Dict.get?_set_of_ne _ _ (Ne.symm hpa), ha]
  have hp₁ : h₁.allocations.get? p = some amount := by rw [hal.table, Dict.get?_set_self]
  have hsrc := hal.wf.live_accessible ha₁
  have hdst := (hal.wf.live_accessible hp₁).sub (le_refl p) (m := old) (by omega)
  rw [hmin]
  simp only [onGuest, wp_bind, wp_ite, wp_pure, wp_zoom]
  refine ⟨fun _ => ?_, fun hz => absurd h0 (by omega)⟩
  refine wp_mono (Guest.read_spec hsrc h0) (fun data g₁ hr => ?_) fun _ _ h' => h'.elim
  obtain ⟨rfl, hdata⟩ := hr
  have hlen : data.length = old := by rw [hdata, ByteMemory.bytes_length]
  refine wp_mono (Guest.write_spec (hlen ▸ hdst) (hlen ▸ h0)) (fun _ g₂ hwr => ?_)
    fun _ _ h' => h'.elim
  have hw₂ : WF { h₁ with guest := g₂ } := hal.wf.withGuest hwr.mapped
  have hfind : h₁.allocations.find? (a : Int) = some old := by rw [Dict.find?_natCast, ha₁]
  refine wp_mono (free_spec hw₂ (a : Int)) (fun _ h' hf => ?_) fun _ _ he => ?_
  · rw [Int.toNat_natCast] at hf
    obtain ⟨-, hf⟩ := hf
    have hg : h'.guest = g₂ := hf.guest
    have hg₁ : h₁.guest = h.guest := hal.guest
    refine hQ h' ⟨hf.wf, ⟨hf.range.base.trans hal.range.base,
      hf.range.size.trans hal.range.size⟩, fun _ => hnone, ?_, fun _ => ?_, fun q hq hqp => ?_,
      fun x => ?_, ?_, fun x hx => ?_⟩
    · rw [hf.table, Dict.get?_erase_of_ne _ hpa]
      exact hp₁
    · rw [hf.table, Dict.get?_erase_self]
    · rw [hf.table, Dict.get?_erase_of_ne _ hq]
      show h₁.allocations.get? q = _
      rw [hal.table, Dict.get?_set_of_ne _ _ hqp]
    · rw [hg, hwr.mapped, hg₁]
    · rw [hmin, hg]
      have := hwr.data_eq
      rw [hlen] at this
      rw [this, hdata, hg₁]
    · rw [hg, hwr.frame x fun hx' => ?_, hg₁]
      refine hw.not_live_of_free (hal.fresh x ⟨hx'.1, ?_⟩) hx
      have := hx'.2
      simp only at this ⊢
      omega
  · rw [hfind] at he
    simp at he

/-- **`realloc`** resizes the block where it is or moves it, or raises and changes nothing. -/
theorem realloc_spec (hw : WF h) (address size : Int) (allowMove : Bool) :
    wp (realloc address size allowMove)
      (fun p h' => ∃ old, h.allocations.find? address = some old ∧
        Reallocated h h' address.toNat old (max size.toNat 1) p ∧
        (allowMove = false ∨ max size.toNat 1 ≤ old → p = address.toNat))
      (fun e h' => e.isHostError = true ∧ h' = h) h := by
  simp only [realloc, validateSize, allocation, wp_bind, wp_ite, wp_throw, wp_pure, wp_get]
  refine ⟨fun _ => ⟨rfl, trivial⟩, fun _ => ?_⟩
  cases hf : h.allocations.find? address with
  | none => exact ⟨rfl, rfl⟩
  | some old =>
    obtain ⟨ha, hnat⟩ := Dict.find?_eq_some hf
    simp only [wp_pure]
    refine ⟨fun hle => ?_, fun hgt => ?_⟩
    · refine wp_mono (shrink_spec hw ha (by omega) hle) (fun p h' hs => ?_) fun _ _ h' => h'.elim
      obtain ⟨rfl, hs⟩ := hs
      exact ⟨old, rfl, hs.reallocated, fun _ => rfl⟩
    · refine wp_mono (growInPlace_spec hw ha (by omega)) (fun grown h₁ hg => ?_)
        fun _ _ h' => h'.elim
      refine ⟨fun ht => ?_, fun hng => ?_⟩
      · rw [if_pos ht] at hg
        exact ⟨old, rfl, hg.reallocated, fun _ => trivial⟩
      · rw [if_neg hng] at hg
        subst hg
        refine ⟨fun _ => ⟨rfl, rfl⟩, fun hmv => ?_⟩
        refine wp_mono (alloc_spec hw size 16) (fun p h₂ hal => ?_) fun _ _ h' => h'
        have hm := move_spec hw ha (by omega) hal (Q := fun p h' => ∃ old', some old = some old' ∧
          Reallocated h₁ h' address.toNat old' (max size.toNat 1) p ∧
          (allowMove = false ∨ max size.toNat 1 ≤ old' → p = address.toNat))
          (fun h' hr => ⟨old, rfl, hr, fun hor => ?_⟩) fun e h' => e.isHostError = true ∧ h' = h₁
        · rw [hnat] at hm
          simpa only [wp_bind, wp_ite, wp_pure] using hm
        · rcases hor with hor | hor
          · exact absurd hor (by simpa using hmv)
          · exact absurd hor hgt

/-! ## Runs -/

/-- A call of one of the allocator's public methods. -/
inductive Op
  | alloc (size align : Int)
  | free (address : Int)
  | realloc (address size : Int) (allowMove : Bool)
  deriving DecidableEq, Repr

/-- The call itself. -/
def Op.call : Op → EStateM Exc (Heap M) Unit
  | .alloc size align => discard (Heap.alloc size align)
  | .free address => Heap.free address
  | .realloc address size allowMove => discard (Heap.realloc address size allowMove)

/-- The heap after a sequence of calls, each succeeding or raising. -/
def run (ops : List Op) (h : Heap M) : Heap M := ops.foldl (fun h op => endState (op.call h)) h

/-- One call keeps the invariant and the range, and raises nothing but `HostError`. -/
theorem call_spec (hw : WF h) (op : Op) :
    wp op.call (fun _ h' => WF h' ∧ SameRange h h')
      (fun e h' => e.isHostError = true ∧ WF h' ∧ SameRange h h') h := by
  cases op with
  | alloc size align =>
    refine wp_discard.mpr (wp_mono (alloc_spec hw size align)
      (fun _ _ ha => ⟨ha.wf, ha.range⟩) fun e h' he => ?_)
    obtain ⟨he, rfl⟩ := he
    exact ⟨he, hw, SameRange.rfl⟩
  | free address =>
    refine wp_mono (free_spec hw address) (fun _ _ hf => ⟨hf.2.wf, hf.2.range⟩) fun e h' he => ?_
    obtain ⟨he, rfl, -⟩ := he
    exact ⟨he, hw, SameRange.rfl⟩
  | realloc address size allowMove =>
    refine wp_discard.mpr (wp_mono (realloc_spec hw address size allowMove)
      (fun _ _ hr => ?_) fun e h' he => ?_)
    · obtain ⟨_, -, hr, -⟩ := hr
      exact ⟨hr.wf, hr.range⟩
    · obtain ⟨he, rfl⟩ := he
      exact ⟨he, hw, SameRange.rfl⟩

/-- **Every run keeps the invariant.** -/
theorem run_wf (ops : List Op) {h : Heap M} (hw : WF h) :
    WF (run ops h) ∧ SameRange h (run ops h) := by
  induction ops generalizing h with
  | nil => exact ⟨hw, SameRange.rfl⟩
  | cons op ops ih =>
    have hstep : WF (endState (op.call h)) ∧ SameRange h (endState (op.call h)) :=
      wp_endState (wp_mono (call_spec hw op) (fun _ _ h' => h') fun _ _ h' => h'.2)
    obtain ⟨h1, h2⟩ := ih hstep.1
    exact ⟨h1, h2.base.trans hstep.2.base, h2.size.trans hstep.2.size⟩

/-- The constructor establishes the invariant. -/
theorem init_spec (base size : Int) (g : Guest M) :
    wp (init base size)
      (fun h _ => WF h ∧ 0 < h.size ∧ h.base = base.toNat ∧ h.size = size.toNat ∧
        h.allocations = .empty)
      (fun _ _ => True) g := by
  simp only [init, Guest.map, wp_bind, wp_ite, wp_throw, wp_pure, wp_get]
  refine ⟨fun _ => trivial, fun hs => ⟨fun _ => trivial, fun hb => ⟨fun _ => trivial, fun hz =>
    ⟨fun _ => trivial, fun _ => ?_⟩⟩⟩⟩
  cases hm : M.memMap g.uc (Guest.alignDown base.toNat Guest.pageSize)
      (Guest.alignUp (base.toNat + size.toNat) Guest.pageSize -
        Guest.alignDown base.toNat Guest.pageSize) with
  | none => trivial
  | some uc =>
    refine ⟨⟨?_, ?_, fun x => ?_, ?_, ?_⟩, by omega, trivial, trivial, trivial⟩
    · exact separated_cons.mpr ⟨by simp only; omega, fun _ hs => absurd hs List.not_mem_nil,
        separated_nil⟩
    · exact fun _ he => absurd he List.not_mem_nil
    · show (if Covers [(base.toNat, size.toNat)] x then 1 else 0) + hits [] x = _
      rw [if_congr (show Covers [(base.toNat, size.toNat)] x ↔ Has (base.toNat, size.toNat) x by
        simp [covers_cons, covers_nil]) rfl rfl]
      rfl
    · intro x h1 h2
      simp only at h1 h2
      refine (M.map_mapped hm x).mpr (Or.inr ?_)
      have hd := Guest.alignDown_le base.toNat Guest.pageSize
      have hu := Guest.le_alignUp (base.toNat + size.toNat) (show 0 < Guest.pageSize by decide)
      omega
    · show base.toNat + size.toNat ≤ _
      omega

/-! ## What the invariant says of the free list -/

theorem WF.covers_free_iff (hw : WF h) (x : Nat) :
    Covers h.freeList x ↔ Has (h.base, h.size) x ∧ ¬ Covers h.allocations.items x := by
  refine ⟨fun hx => ⟨hw.inside_of_free hx, hw.not_live_of_free hx⟩, fun hx => ?_⟩
  by_contra hn
  have h1 := hw.part x
  rw [if_neg hn, if_pos hx.1] at h1
  exact hx.2 (hits_pos_iff.mp (by omega))

/-- Freeing a block makes exactly its bytes free. -/
theorem Freed.covers_free_iff {a n : Nat} (hf : Freed h h' a) (hw : WF h)
    (ha : h.allocations.get? a = some n) (x : Nat) :
    Covers h'.freeList x ↔ Covers h.freeList x ∨ Has (a, n) x := by
  have h1 := hits_erase ha x
  have h2 := hw.hits_live_le x
  have h3 := hits_pos_iff (l := h.allocations.items) (x := x)
  have h4 := hits_pos_iff (l := (h.allocations.erase a).items) (x := x)
  rw [hf.wf.covers_free_iff, hw.covers_free_iff, hf.range.base, hf.range.size, hf.table, ← h3, ← h4]
  by_cases hx : Has (a, n) x
  · have hin := hw.inside_of_live (covers_of_get? ha hx)
    rw [if_pos hx] at h1
    exact ⟨fun _ => Or.inr hx, fun _ => ⟨hin, by omega⟩⟩
  · rw [if_neg hx] at h1
    rw [h1]
    simp [hx]

/-- **The free list is a function of the live allocations.** -/
theorem WF.freeList_eq (hw : WF h) (hw' : WF h') (hr : SameRange h h')
    (hl : ∀ a, h'.allocations.get? a = h.allocations.get? a) : h'.freeList = h.freeList := by
  refine Separated.ext hw'.sep hw.sep fun x => ?_
  have hc : Covers h'.allocations.items x ↔ Covers h.allocations.items x := by
    constructor
    · rintro ⟨e, he, hx⟩
      exact covers_of_get? ((hl e.1).symm.trans (Dict.get?_eq_some_iff.mpr he)) hx
    · rintro ⟨e, he, hx⟩
      exact covers_of_get? ((hl e.1).trans (Dict.get?_eq_some_iff.mpr he)) hx
  rw [hw'.covers_free_iff, hw.covers_free_iff, hc, hr.base, hr.size]

/-- Free and live bytes add up to the size of the heap. -/
theorem WF.freeBytes_add_live (hw : WF h) :
    h.freeBytes + (h.allocations.values).sum = h.size := by
  have hsub : ∀ l : List Range, (∀ x, Covers l x → Has (h.base, h.size) x) →
      (∀ r ∈ l, 0 < r.2) → ∀ r ∈ l, h.base ≤ r.1 ∧ r.1 + r.2 ≤ h.base + h.size := by
    intro l hl hp r hr
    have h0 := hp r hr
    have h1 := hl r.1 ⟨r, hr, le_refl _, by omega⟩
    have h2 := hl (r.1 + r.2 - 1) ⟨r, hr, by omega, by omega⟩
    unfold Has at h1 h2
    simp only at h1 h2
    omega
  have hfree := sum_sizes (hsub _ (fun _ => hw.inside_of_free) hw.sep.pos)
  have hlive := sum_sizes (hsub _ (fun _ => hw.inside_of_live) hw.live_pos)
  unfold freeBytes Dict.values
  rw [hfree, hlive, ← Finset.sum_add_distrib]
  calc ∑ x ∈ Finset.Ico h.base (h.base + h.size), (hits h.freeList x + hits h.allocations.items x)
      = ∑ _x ∈ Finset.Ico h.base (h.base + h.size), 1 := by
        refine Finset.sum_congr rfl fun x hx => ?_
        have hin : Has (h.base, h.size) x := Finset.mem_Ico.mp hx
        rw [hw.sep.hits_eq, hw.part x, if_pos hin]
    _ = h.size := by
        rw [Finset.sum_const, Nat.card_Ico]
        simp

/-- The table after freeing a list of addresses, live or not. -/
theorem run_free_get? (as : List Int) {h : Heap M} (hw : WF h) (a : Nat) :
    (run (as.map Op.free) h).allocations.get? a =
      if (a : Int) ∈ as then none else h.allocations.get? a := by
  induction as generalizing h with
  | nil => simp [run]
  | cons b as ih =>
    have hstep := wp_endState (I := fun h' => WF h' ∧
        h'.allocations.get? a = if (a : Int) = b then none else h.allocations.get? a)
      (wp_mono (free_spec hw b) (fun _ h' hf => ?_) fun e h' he => ?_)
    · show (run (as.map Op.free) (endState (free b h))).allocations.get? a = _
      rw [ih hstep.1, hstep.2]
      by_cases h1 : (a : Int) ∈ as <;> by_cases h2 : (a : Int) = b <;> simp [h1, h2]
    · obtain ⟨⟨n, hn⟩, hf⟩ := hf
      refine ⟨hf.wf, ?_⟩
      have hb := (Dict.find?_eq_some hn).2
      rw [hf.table, Dict.get?_erase]
      exact if_congr (by omega) rfl rfl
    · obtain ⟨-, rfl, hn⟩ := he
      refine ⟨hw, ?_⟩
      by_cases hab : (a : Int) = b
      · rw [if_pos hab, ← Dict.find?_natCast, hab, hn]
      · rw [if_neg hab]

/-- A heap without live allocations is one free range. -/
theorem WF.freeList_of_no_live (hw : WF h) (hpos : 0 < h.size)
    (hl : ∀ a, h.allocations.get? a = none) : h.freeList = [(h.base, h.size)] := by
  refine Separated.ext hw.sep
    (separated_cons.mpr ⟨hpos, fun _ hs => absurd hs List.not_mem_nil, separated_nil⟩) fun x => ?_
  rw [hw.covers_free_iff, covers_cons]
  refine ⟨fun hx => Or.inl hx.1, fun hx => ⟨hx.resolve_right (covers_nil x), ?_⟩⟩
  rintro ⟨e, he, -⟩
  have := hl e.1
  rw [Dict.get?_eq_some_iff.mpr he] at this
  exact absurd this (by simp)

/-! ## The partition -/

/-- The free ranges and the live allocations partition `[base, base + size)`. -/
structure Partitioned (h : Heap M) (base size : Nat) : Prop where
  /-- Sorted by address, and no two ranges overlap or touch. -/
  sorted : h.freeList.Pairwise fun r s => r.1 + r.2 < s.1
  free_pos : ∀ r ∈ h.freeList, 0 < r.2
  live_pos : ∀ e ∈ h.allocations.items, 0 < e.2
  /-- Every byte of the heap is in exactly one free range or live allocation. -/
  once : ∀ x, Has (base, size) x → hits h.freeList x + hits h.allocations.items x = 1
  inside : ∀ x, Covers h.freeList x ∨ Covers h.allocations.items x → Has (base, size) x
  live_disjoint : h.allocations.items.Pairwise fun r s => ∀ x, ¬ (Has r x ∧ Has s x)
  bytes : h.freeBytes + h.allocations.values.sum = size

theorem WF.partitioned (hw : WF h) : Partitioned h h.base h.size where
  sorted := hw.sep.gaps
  free_pos := hw.sep.pos
  live_pos := hw.live_pos
  once x hx := by rw [hw.sep.hits_eq, hw.part x, if_pos hx]
  inside x hx := hx.elim hw.inside_of_free hw.inside_of_live
  live_disjoint := pairwise_disjoint_of_hits_le hw.hits_live_le
  bytes := hw.freeBytes_add_live

/-- **The heap partitions its range** after every sequence of calls, no call raises anything but
`HostError`, and the free list depends on the live allocations alone: equal tables have equal
free lists, the order in which blocks are freed does not matter, and freeing every live block
leaves one range. -/
theorem run_partitioned {base size : Int} {g g' : Guest M} {h : Heap M}
    (hinit : init base size g = .ok h g') (ops : List Op) :
    Partitioned (run ops h) base.toNat size.toNat ∧
    (∀ op : Op, wp op.call (fun _ _ => True) (fun e _ => e.isHostError = true) (run ops h)) ∧
    (∀ ops', (∀ a, (run ops' h).allocations.get? a = (run ops h).allocations.get? a) →
      (run ops' h).freeList = (run ops h).freeList) ∧
    (∀ as bs : List Int, (∀ a, a ∈ as ↔ a ∈ bs) →
      (run (as.map Op.free) (run ops h)).freeList = (run (bs.map Op.free) (run ops h)).freeList) ∧
    (∀ as : List Int, (∀ a ∈ (run ops h).allocations.keys, (a : Int) ∈ as) →
      (run (as.map Op.free) (run ops h)).freeList = [(base.toNat, size.toNat)]) := by
  obtain ⟨hw₀, hpos, hbase, hsize, -⟩ := wp_of_ok (init_spec base size g) hinit
  obtain ⟨hw, hr⟩ := run_wf ops hw₀
  have hfrees : ∀ as : List Int, WF (run (as.map Op.free) (run ops h)) ∧
      SameRange (run ops h) (run (as.map Op.free) (run ops h)) := fun as => run_wf _ hw
  refine ⟨?_, fun op => ?_, fun ops' hl => ?_, fun as bs hab => ?_, fun as has => ?_⟩
  · rw [← hbase, ← hsize, ← hr.base, ← hr.size]
    exact hw.partitioned
  · exact wp_mono (call_spec hw op) (fun _ _ _ => trivial) fun _ _ he => he.1
  · obtain ⟨hw', hr'⟩ := run_wf ops' hw₀
    exact hw.freeList_eq hw' ⟨hr'.base.trans hr.base.symm, hr'.size.trans hr.size.symm⟩ hl
  · refine (hfrees bs).1.freeList_eq (hfrees as).1
      ⟨(hfrees as).2.base.trans (hfrees bs).2.base.symm,
        (hfrees as).2.size.trans (hfrees bs).2.size.symm⟩ fun a => ?_
    rw [run_free_get? as hw, run_free_get? bs hw]
    exact if_congr (hab a) rfl rfl
  · obtain ⟨hw', hr'⟩ := hfrees as
    have hsz : (run (as.map Op.free) (run ops h)).size = h.size := hr'.size.trans hr.size
    rw [hw'.freeList_of_no_live (by omega) fun a => ?_, hr'.base, hr.base, hbase, hsz, hsize]
    rw [run_free_get? as hw]
    split
    · rfl
    · rename_i hn
      exact Dict.get?_eq_none_iff.mpr fun hk => hn (has a hk)

theorem run_partitioned_flat :
    ∃ (h : Heap .flat) (g : Guest .flat), init 0x2000 64 ⟨ByteMemory.blank⟩ = .ok h g ∧
      Partitioned (run [.alloc 5 16, .alloc 0 1, .free 0x2000, .free 7, .alloc 100 16] h)
        0x2000 64 := by
  obtain ⟨h, g, hi⟩ : ∃ (h : Heap .flat) (g : Guest .flat),
      init 0x2000 64 ⟨ByteMemory.blank⟩ = .ok h g := ⟨_, _, rfl⟩
  exact ⟨h, g, hi,
    (run_partitioned hi [.alloc 5 16, .alloc 0 1, .free 0x2000, .free 7, .alloc 100 16]).1⟩

end Cwhost.Heap
