import Cwhost.Memory.Partition

/-!
# Every reachable heap

`Reachable` holds of the heaps that any sequence of calls, each succeeding or raising, reaches
from a new heap, with any change to the contents of guest memory in between.

* `alloc_complete`: `alloc` succeeds exactly when some aligned run of free bytes exists, and
  takes the one with the least address. The scan looks at free ranges, the law speaks about
  bytes: a run of free bytes lies in one range because the free list is separated.
* `realloc_preserves`: what `realloc` does to the block, to the other blocks and to the table.
-/

namespace Cwhost.Heap

open Lib

variable {M : ByteMemory} {h h' : Heap M}

/-- The heaps reached from a new one. -/
inductive Reachable : Heap M → Prop
  | init {base size : Int} {g g' : Guest M} {h : Heap M} :
    Heap.init base size g = .ok h g' → Reachable h
  | call (op : Op) {h : Heap M} : Reachable h → Reachable (endState (op.call h))
  | memory {h : Heap M} (g : Guest M) : Reachable h →
    (∀ x, M.mapped g.uc x ↔ M.mapped h.guest.uc x) → Reachable { h with guest := g }

theorem Reachable.wf (hr : Reachable h) : WF h := by
  induction hr with
  | init hinit => exact (wp_of_ok (init_spec _ _ _) hinit).1
  | call op _ ih =>
    exact wp_endState (wp_mono (call_spec ih op) (fun _ _ h => h.1) fun _ _ h => h.2.1)
  | memory g _ hm ih => exact ih.withGuest hm

/-! ## The scan -/

theorem dvd_aligned (value alignment : Nat) : alignment ∣ aligned value alignment :=
  Dvd.intro_left _ rfl

/-- `aligned` is the least multiple that is not below the value. -/
theorem aligned_le {value alignment a : Nat} (hal : 0 < alignment) (hd : alignment ∣ a)
    (hle : value ≤ a) : aligned value alignment ≤ a := by
  obtain ⟨c, rfl⟩ := hd
  have hc : (value + alignment - 1) / alignment ≤ c := by
    refine Nat.lt_succ_iff.mp ((Nat.div_lt_iff_lt_mul hal).mpr ?_)
    rw [Nat.succ_mul, Nat.mul_comm c]
    omega
  calc aligned value alignment ≤ c * alignment := Nat.mul_le_mul_right _ hc
    _ = alignment * c := Nat.mul_comm _ _

/-- `amount` bytes from `a` on lie in a range of the list. -/
def Fits (l : List Range) (amount a : Nat) : Prop := ∃ r ∈ l, r.1 ≤ a ∧ a + amount ≤ r.1 + r.2

/-- A scan that finds nothing has passed every aligned run. -/
theorem firstFit_none {amount align : Nat} (hal : 0 < align) {l : List Range}
    (hf : firstFit amount align l = none) {a : Nat} (hd : align ∣ a) : ¬ Fits l amount a := by
  induction l with
  | nil => exact fun ⟨_, hr, _⟩ => absurd hr List.not_mem_nil
  | cons e rest ih =>
    obtain ⟨start, available⟩ := e
    simp only [firstFit] at hf
    split at hf
    · rename_i hsmall
      rintro ⟨r, hr, h1, h2⟩
      rcases List.mem_cons.mp hr with rfl | hr
      · have hfirst : aligned start align ≤ a := aligned_le hal hd h1
        have := le_aligned start hal
        simp only at h2
        omega
      · exact ih (Option.map_eq_none_iff.mp hf) ⟨r, hr, h1, h2⟩
    · exact absurd hf (by simp)

/-- **The scan finds the least aligned run** of a separated list. -/
theorem firstFit_least {amount align : Nat} (hal : 0 < align) {l l' : List Range} {p : Nat}
    (hs : Separated l) (hf : firstFit amount align l = some (p, l')) :
    align ∣ p ∧ Fits l amount p ∧ ∀ a, align ∣ a → Fits l amount a → p ≤ a := by
  induction l generalizing l' with
  | nil => exact absurd hf (by simp [firstFit])
  | cons e rest ih =>
    obtain ⟨start, available⟩ := e
    obtain ⟨-, hgap, hrest⟩ := separated_cons.mp hs
    have hle := le_aligned start hal
    simp only [firstFit] at hf
    split at hf
    · rename_i hsmall
      obtain ⟨⟨p', l''⟩, hf', he⟩ := Option.map_eq_some_iff.mp hf
      simp only [Prod.mk.injEq] at he
      obtain ⟨rfl, -⟩ := he
      obtain ⟨h1, ⟨r, hr, hfit⟩, h3⟩ := ih hrest hf'
      refine ⟨h1, ⟨r, List.mem_cons_of_mem _ hr, hfit⟩, fun a hd ha => ?_⟩
      obtain ⟨r, hr, ha1, ha2⟩ := ha
      rcases List.mem_cons.mp hr with rfl | hr
      · have hfirst : aligned start align ≤ a := aligned_le hal hd ha1
        simp only at ha2
        omega
      · exact h3 a hd ⟨r, hr, ha1, ha2⟩
    · rename_i hfits
      simp only [Option.some.injEq, Prod.mk.injEq] at hf
      obtain ⟨rfl, -⟩ := hf
      refine ⟨dvd_aligned _ _, ⟨_, List.mem_cons_self, hle, by simp only; omega⟩, fun a hd ha => ?_⟩
      obtain ⟨r, hr, ha1, ha2⟩ := ha
      rcases List.mem_cons.mp hr with rfl | hr
      · exact aligned_le hal hd ha1
      · -- Later ranges start above this one, and with them their runs.
        have := hgap r hr
        simp only at this
        omega

/-! ## `alloc` -/

/-- An aligned run of `amount` bytes of the heap that belong to no live allocation. -/
def FreeRun (h : Heap M) (amount align a : Nat) : Prop :=
  align ∣ a ∧ ∀ x, Has (a, amount) x → Has (h.base, h.size) x ∧ ¬ Covers h.allocations.items x

theorem WF.freeRun_iff (hw : WF h) {amount align a : Nat} (hn : 0 < amount) :
    FreeRun h amount align a ↔ align ∣ a ∧ Fits h.freeList amount a := by
  refine and_congr_right fun _ => ⟨fun hrun => ?_, fun hfits x hx => ?_⟩
  · exact hw.sep.run_in_range hn fun x hx => (hw.covers_free_iff x).mpr (hrun x hx)
  · obtain ⟨r, hr, h1, h2⟩ := hfits
    refine (hw.covers_free_iff x).mp ⟨r, hr, ?_⟩
    unfold Has at hx ⊢
    simp only at hx
    omega

/-- What `alloc` has done when it returned `p`. -/
structure TookLeast (h h' : Heap M) (amount align p : Nat) : Prop where
  run : FreeRun h amount align p
  least : ∀ a, FreeRun h amount align a → p ≤ a
  /-- Exactly this allocation is added. -/
  table : h'.allocations.items = h.allocations.items ++ [(p, amount)]
  /-- Exactly its bytes are no longer free. -/
  free : ∀ x, Covers h'.freeList x ↔ Covers h.freeList x ∧ ¬ Has (p, amount) x
  range : SameRange h h'
  guest : h'.guest = h.guest

theorem Allocated.covers_free_iff {p n : Nat} (ha : Allocated h h' p n) (hw : WF h) (hn : 0 < n)
    (x : Nat) : Covers h'.freeList x ↔ Covers h.freeList x ∧ ¬ Has (p, n) x := by
  have hnone := ha.get?_eq_none hw hn
  have hitems : h'.allocations.items = h.allocations.items ++ [(p, n)] := by
    rw [ha.table, Dict.set_items_of_notMem _ (Dict.get?_eq_none_iff.mp hnone)]
  rw [ha.wf.covers_free_iff, hw.covers_free_iff, ha.range.base, ha.range.size, hitems,
    covers_append, covers_cons]
  simp only [covers_nil, or_false, not_or, and_assoc]

/-- **`alloc` is complete and takes the least address**, in every heap that keeps the invariant. -/
theorem WF.alloc_least (hw : WF h) {size align : Int} (hs : 0 ≤ size) (hal : 1 ≤ align) :
    wp (alloc size align) (fun p h' => TookLeast h h' (max size.toNat 1) align.toNat p)
      (fun e h' => e.isHostError = true ∧ h' = h ∧
        ∀ a, ¬ FreeRun h (max size.toNat 1) align.toNat a) h := by
  have hn : 0 < max size.toNat 1 := by omega
  have hspec := alloc_spec hw size align
  simp only [alloc, validateSize, validateAlign, wp_bind, wp_ite, wp_throw, wp_pure,
    wp_get] at hspec ⊢
  refine ⟨fun hneg => absurd hs (by omega), fun hpos => ⟨fun hneg => absurd hal (by omega),
    fun hal' => ?_⟩⟩
  have hspec := (hspec.2 hpos).2 hal'
  cases hf : firstFit (max size.toNat 1) align.toNat h.freeList with
  | none =>
    refine ⟨rfl, rfl, fun a ha => ?_⟩
    obtain ⟨hd, hfits⟩ := (hw.freeRun_iff hn).mp ha
    exact firstFit_none (by omega) hf hd hfits
  | some r =>
    obtain ⟨p, l'⟩ := r
    rw [hf] at hspec
    have ha : Allocated h _ p (max size.toNat 1) := hspec
    obtain ⟨h1, h2, h3⟩ := firstFit_least (by omega) hw.sep hf
    refine ⟨(hw.freeRun_iff hn).mpr ⟨h1, h2⟩, fun a hrun => ?_, ?_, ha.covers_free_iff hw hn,
      ha.range, ha.guest⟩
    · obtain ⟨hd, hfits⟩ := (hw.freeRun_iff hn).mp hrun
      exact h3 a hd hfits
    · exact Dict.set_items_of_notMem _
        (Dict.get?_eq_none_iff.mp (ha.get?_eq_none hw hn))

/-- **`alloc` is complete and address-minimal**: in every reachable heap it succeeds exactly when
some multiple of the alignment starts a run of free bytes, takes the least such address, and
otherwise raises `HostError` and changes nothing. -/
theorem alloc_complete (hr : Reachable h) (size align : Int) (hs : 0 ≤ size) (hal : 1 ≤ align) :
    ((∃ p h', alloc size align h = .ok p h') ↔
      ∃ a, FreeRun h (max size.toNat 1) align.toNat a) ∧
    (∀ p h', alloc size align h = .ok p h' →
      TookLeast h h' (max size.toNat 1) align.toNat p) ∧
    ∀ e h', alloc size align h = .error e h' → e.isHostError = true ∧ h' = h := by
  have hspec := hr.wf.alloc_least hs hal
  refine ⟨⟨?_, ?_⟩, fun p h' => wp_of_ok hspec, fun e h' he => ?_⟩
  · rintro ⟨p, h', hok⟩
    exact ⟨p, (wp_of_ok hspec hok).run⟩
  · rintro ⟨a, ha⟩
    cases hres : alloc size align h with
    | ok p h' => exact ⟨p, h', rfl⟩
    | error e h' => exact absurd ha ((wp_of_error hspec hres).2.2 a)
  · obtain ⟨h1, h2, -⟩ := wp_of_error hspec he
    exact ⟨h1, h2⟩

/-- Three blocks, the outer two freed again. -/
def withHoles : List Op := [.alloc 8 16, .alloc 8 16, .alloc 8 16, .free 0x2000, .free 0x2020]

/-- The search passes over the first hole, which is too small. -/
theorem alloc_complete_flat :
    ∃ (h : Heap .flat) (g : Guest .flat), init 0x2000 64 ⟨ByteMemory.blank⟩ = .ok h g ∧
      ∃ h', alloc 20 16 (run withHoles h) = .ok 0x2020 h' ∧
        TookLeast (run withHoles h) h' 20 16 0x2020 := by
  obtain ⟨h, g, h', hi, hok⟩ : ∃ (h : Heap .flat) (g : Guest .flat) (h' : Heap .flat),
      init 0x2000 64 ⟨ByteMemory.blank⟩ = .ok h g ∧
      alloc 20 16 (run withHoles h) = .ok 0x2020 h' := ⟨_, _, _, rfl, rfl⟩
  have hr : Reachable (run withHoles h) := .call _ (.call _ (.call _ (.call _ (.call _ (.init hi)))))
  exact ⟨h, g, hi, h', hok, (alloc_complete hr 20 16 (by decide) (by decide)).2.1 _ _ hok⟩

/-! ## Two allocations in a row -/

/-- `alloc n₁ a₁` succeeds and `alloc n₂ a₂` right after it does not: every run that fits the
second request meets the least run that fits the first. -/
def SecondFails (h : Heap M) (n₁ a₁ n₂ a₂ : Nat) : Prop :=
  ∃ p, FreeRun h n₁ a₁ p ∧ (∀ a, FreeRun h n₁ a₁ a → p ≤ a) ∧
    ∀ q, FreeRun h n₂ a₂ q → ∃ x, Has (p, n₁) x ∧ Has (q, n₂) x

theorem not_secondFails {n₁ a₁ n₂ a₂ : Nat} (hnone : ∀ a, ¬ FreeRun h n₁ a₁ a) :
    ¬ SecondFails h n₁ a₁ n₂ a₂ := fun ⟨p, hp, _⟩ => hnone p hp

/-- The runs that are left after an allocation. -/
theorem TookLeast.freeRun_iff {n a n' a' p q : Nat} (ht : TookLeast h h' n a p) :
    FreeRun h' n' a' q ↔ FreeRun h n' a' q ∧ ∀ x, Has (q, n') x → ¬ Has (p, n) x := by
  unfold FreeRun
  rw [ht.table, ht.range.base, ht.range.size, and_assoc]
  refine and_congr_right fun _ => ?_
  simp only [covers_append, covers_cons, covers_nil, or_false, not_or, ← forall_and, and_assoc]

theorem TookLeast.secondFails_iff {n a n' a' p : Nat} (ht : TookLeast h h' n a p) :
    SecondFails h n a n' a' ↔ ∀ q, ¬ FreeRun h' n' a' q := by
  constructor
  · rintro ⟨p', hp', hleast, hmeet⟩ q hq
    have hpp : p' = p := le_antisymm (hleast p ht.run) (ht.least p' hp')
    subst hpp
    obtain ⟨hq, hapart⟩ := ht.freeRun_iff.mp hq
    obtain ⟨x, hx, hx'⟩ := hmeet q hq
    exact hapart x hx' hx
  · intro hnone
    refine ⟨p, ht.run, ht.least, fun q hq => ?_⟩
    by_contra hmeet
    exact hnone q (ht.freeRun_iff.mpr ⟨hq, fun x hx hx' => hmeet ⟨x, hx', hx⟩⟩)

/-- `alloc`, with both accounts of what it does. -/
theorem WF.alloc_outcome (hw : WF h) (size align : Int) (hs : 0 ≤ size) (hal : 1 ≤ align) :
    wp (alloc size align)
      (fun p h' => Allocated h h' p (max size.toNat 1) ∧
        TookLeast h h' (max size.toNat 1) align.toNat p)
      (fun e h' => e.isHostError = true ∧ h' = h ∧
        ∀ a, ¬ FreeRun h (max size.toNat 1) align.toNat a) h :=
  wp_mono (wp_and (alloc_spec hw size align) (hw.alloc_least hs hal)) (fun _ _ h => h)
    fun _ _ h => h.2

/-! ## `realloc` -/

/-- What `realloc` has done to the live block `a` of size `old` when it returned `p`. -/
structure Moved (h h' : Heap M) (a old amount p : Nat) : Prop where
  contents : ByteMemory.bytes h'.guest.uc p (min old amount) =
    ByteMemory.bytes h.guest.uc a (min old amount)
  /-- Every byte of every other live allocation. -/
  others : ∀ b n, b ≠ a → h.allocations.get? b = some n →
    ByteMemory.bytes h'.guest.uc b n = ByteMemory.bytes h.guest.uc b n
  /-- The entry of `a` is replaced by one of `p`, which was not live unless it is `a`. -/
  table : ∀ q, h'.allocations.get? q =
    if q = p then some amount else if q = a then none else h.allocations.get? q
  fresh : p ≠ a → h.allocations.get? p = none

theorem Reallocated.moved {a old amount p : Nat} (hr : Reallocated h h' a old amount p) :
    Moved h h' a old amount p where
  contents := hr.copied
  others b n _ hb := ByteMemory.bytes_congr fun x h1 h2 =>
    hr.frame x (covers_of_get? hb ⟨h1, h2⟩)
  table q := by
    split
    · rename_i hqp
      rw [hqp, hr.live]
    · rename_i hqp
      split
      · rename_i hqa
        rw [hqa]
        exact hr.released fun hpa => hqp (hqa.trans hpa.symm)
      · rename_i hqa
        exact hr.others q hqa hqp
  fresh := hr.fresh

/-- **`realloc` preserves contents and everything else**, in every reachable heap and whatever
guest memory holds; a failure changes nothing. -/
theorem realloc_preserves (hr : Reachable h) {a old : Nat} (ha : h.allocations.get? a = some old)
    (size : Int) (allowMove : Bool) :
    (∀ p h', realloc a size allowMove h = .ok p h' →
      Moved h h' a old (max size.toNat 1) p ∧
        (allowMove = false ∨ max size.toNat 1 ≤ old → p = a)) ∧
    ∀ e h', realloc a size allowMove h = .error e h' → e.isHostError = true ∧ h' = h := by
  have hspec := realloc_spec hr.wf a size allowMove
  refine ⟨fun p h' hok => ?_, fun e h' => wp_of_error hspec⟩
  obtain ⟨old', hold, hre, hp⟩ := wp_of_ok hspec hok
  rw [Dict.find?_natCast, ha, Option.some.injEq] at hold
  subst hold
  rw [Int.toNat_natCast] at hre hp
  exact ⟨hre.moved, hp⟩

/-- Two blocks, with five bytes stored in the first. -/
def twoBlocks (h : Heap .flat) : Heap .flat :=
  let h' := run [.alloc 5 16, .alloc 8 16] h
  { h' with
    guest := ⟨(ByteMemory.flat.memWrite h'.guest.uc 0x2000 [1, 2, 3, 4, 5]).getD h'.guest.uc⟩ }

theorem twoBlocks_reachable {base size : Int} {g g' : Guest .flat} {h : Heap .flat}
    (hi : init base size g = .ok h g') : Reachable (twoBlocks h) := by
  refine .memory _ (.call _ (.call _ (.init hi))) fun x => ?_
  cases hw : ByteMemory.flat.memWrite (run [.alloc 5 16, .alloc 8 16] h).guest.uc 0x2000
      [1, 2, 3, 4, 5] with
  | none => exact Iff.rfl
  | some uc => exact ByteMemory.flat.write_mapped hw x

/-- The first block grows past the second, and takes its bytes along. -/
theorem realloc_preserves_flat :
    ∃ (h : Heap .flat) (g : Guest .flat), init 0x2000 256 ⟨ByteMemory.blank⟩ = .ok h g ∧
      ∃ h', realloc 0x2000 40 true (twoBlocks h) = .ok 0x2020 h' ∧
        Moved (twoBlocks h) h' 0x2000 5 40 0x2020 ∧
        ByteMemory.bytes h'.guest.uc 0x2020 5 = [1, 2, 3, 4, 5] := by
  obtain ⟨h, g, h', hi, ha, hok, hbytes⟩ :
      ∃ (h : Heap .flat) (g : Guest .flat) (h' : Heap .flat),
        init 0x2000 256 ⟨ByteMemory.blank⟩ = .ok h g ∧
        (twoBlocks h).allocations.get? 0x2000 = some 5 ∧
        realloc 0x2000 40 true (twoBlocks h) = .ok 0x2020 h' ∧
        ByteMemory.bytes (twoBlocks h).guest.uc 0x2000 5 = [1, 2, 3, 4, 5] :=
    ⟨_, _, _, rfl, rfl, rfl, rfl⟩
  have hmoved := ((realloc_preserves (twoBlocks_reachable hi) ha 40 true).1 _ _ hok).1
  exact ⟨h, g, hi, h', hok, hmoved, hmoved.contents.trans hbytes⟩

end Cwhost.Heap
