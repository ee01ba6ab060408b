import Cwhost.Memory.Ownership

/-!
# Memory Manager handles (`memory.py`, `Handles`)

A handle is a master pointer, a four-byte heap block that holds the address of the handle's
data block. The table of handles shares its heap with other owners: the specifications carry the
list `rest` of what those own.

* `new_spec`, `dispose_spec`, `resize_spec`, `setState_spec`: each operation keeps ownership,
  and with it every byte of every other owner.
* `new_outcome`: when a new handle fails, and what it then leaves allocated (`NewLeaks`).
* `resize_outcome`: the contents of the resized block, and its address when it is locked.
-/

namespace Cwhost

open Lib

/-- `_Handle`. -/
structure Handle where
  master : Nat
  block : Nat
  requestedSize : Nat
  stateBits : Nat
  deriving DecidableEq, Repr

/-- `Handles`: the handles of the Memory Manager, on their heap. -/
structure Handles (M : ByteMemory) where
  heap : Heap M
  /-- `_handles`. -/
  handles : Dict Nat Handle

namespace Handles

variable {M : ByteMemory}

/-- Run a heap operation on the heap of the handles. -/
def onHeap {α : Type} (x : EStateM Exc (Heap M) α) : EStateM Exc (Handles M) α :=
  zoom Handles.heap (fun s h => { s with heap := h }) x

/-- Run an operation of the guest on the guest of the heap. -/
def onGuest {α : Type} (x : EStateM Exc (Guest M) α) : EStateM Exc (Handles M) α :=
  onHeap (Heap.onGuest x)

/-- The error of `_get` and of `dispose`. -/
def invalidHandle (master : Int) : Exc :=
  .hostError s!"invalid Memory Manager handle {hexInt master}"

/-- `_get`. -/
def getHandle (master : Int) : EStateM Exc (Handles M) Handle := do
  let s ← get
  match s.handles.find? master with
  | some handle => return handle
  | none => throw (invalidHandle master)

/-- Store the record of the handle `master`. -/
def putHandle (master : Nat) (handle : Handle) : EStateM Exc (Handles M) Unit :=
  modify fun s => { s with handles := s.handles.set master handle }

/-- `_validate_size`. -/
def validateSize (size : Int) : EStateM Exc (Handles M) Unit :=
  if size < 0 then throw (.hostError s!"invalid handle size {size}") else pure ()

/-- `new`. -/
def new (size : Int) (clear : Bool) : EStateM Exc (Handles M) Nat := do
  validateSize size
  let block ← onHeap (Heap.alloc size 16)
  let master ← onHeap (Heap.alloc 4 4)
  putHandle master
    { master := master, block := block, requestedSize := size.toNat, stateBits := 0 }
  onGuest (Guest.w32 master block)
  if clear then
    onGuest (Guest.write block (List.replicate (max size.toNat 1) 0))
  return master

/-- `dispose`. -/
def dispose (master : Int) : EStateM Exc (Handles M) Unit := do
  let handle ← getHandle master
  modify fun s => { s with handles := s.handles.erase master.toNat }
  onHeap (Heap.free handle.block)
  onHeap (Heap.free handle.master)

/-- `size`. -/
def size (master : Int) : EStateM Exc (Handles M) Nat := do
  let handle ← getHandle master
  return handle.requestedSize

/-- `resize`. -/
def resize (master size : Int) : EStateM Exc (Handles M) Nat := do
  validateSize size
  let handle ← getHandle master
  let newBlock ← onHeap (Heap.realloc handle.block size (handle.stateBits &&& 0x80 = 0))
  putHandle master.toNat { handle with block := newBlock, requestedSize := size.toNat }
  onGuest (Guest.w32 master.toNat newBlock)
  return newBlock

/-- `lock`. -/
def lock (master : Int) : EStateM Exc (Handles M) Unit := do
  let handle ← getHandle master
  putHandle master.toNat { handle with stateBits := handle.stateBits ||| 0x80 }

/-- `unlock`. -/
def unlock (master : Int) : EStateM Exc (Handles M) Unit := do
  let handle ← getHandle master
  putHandle master.toNat { handle with stateBits := handle.stateBits &&& 0x7F }

/-- `state`. -/
def state (master : Int) : EStateM Exc (Handles M) Nat := do
  let handle ← getHandle master
  return handle.stateBits

/-- `set_state`. -/
def setState (master state : Int) : EStateM Exc (Handles M) Unit := do
  if ¬ (0 ≤ state ∧ state ≤ 0xFF) then
    throw (.hostError s!"invalid handle state {state}")
  let handle ← getHandle master
  putHandle master.toNat { handle with stateBits := state.toNat }

/-- `block`: the block pointer, checked against the master pointer in guest memory. -/
def block (master : Int) : EStateM Exc (Handles M) Nat := do
  let handle ← getHandle master
  let pointer ← onGuest (Guest.u32 master.toNat)
  if pointer ≠ handle.block then
    throw (.hostError s!"master pointer for handle {hexInt master} was modified")
  return pointer

/-- `block_size`: the size of the first handle with this block. -/
def blockSize (pointer : Nat) : EStateM Exc (Handles M) Nat := do
  let s ← get
  match s.handles.items.find? fun e => decide (e.2.block = pointer) with
  | some e => return e.2.requestedSize
  | none => throw (.hostError s!"invalid Memory Manager block {hex pointer}")

end Handles

/-! ## What the handles own -/

/-- The heap blocks of a handle. -/
def Handle.owned (h : Handle) : List Range := [(h.master, 4), (h.block, max h.requestedSize 1)]

namespace Handles

variable {M : ByteMemory} {s : Handles M} {rest : List Range}

/-- The heap blocks of all handles of a table. -/
def owned (handles : Dict Nat Handle) : List Range := handles.collect Handle.owned

/-- **The invariant of the table**, beside what the other users of the heap own. -/
structure Inv (s : Handles M) (rest : List Range) : Prop where
  owns : Heap.Owns s.heap (owned s.handles ++ rest)
  keyed : ∀ m h, s.handles.get? m = some h → h.master = m

/-- Every master word holds the address of its block. -/
def Words (s : Handles M) : Prop :=
  ∀ m h, s.handles.get? m = some h → s.heap.guest.word m = h.block

theorem Inv.keyed_set (hi : Inv s rest) {m : Nat} {v : Handle} (hv : v.master = m) :
    ∀ q h, (s.handles.set m v).get? q = some h → h.master = q := by
  intro q h hq
  rw [Dict.get?_set] at hq
  split at hq
  · rename_i hqm
    rw [← Option.some.inj hq, hv, hqm]
  · exact hi.keyed q h hq

theorem Inv.keyed_erase (hi : Inv s rest) (m : Nat) :
    ∀ q h, (s.handles.erase m).get? q = some h → h.master = q := by
  intro q h hq
  rw [Dict.get?_erase] at hq
  split at hq
  · exact absurd hq (by simp)
  · exact hi.keyed q h hq

/-- A table entry with the same blocks owns the same. -/
theorem Inv.replace (hi : Inv s rest) {m : Nat} {v w : Handle} (hg : s.handles.get? m = some v)
    (hm : w.master = v.master) (hb : w.owned = v.owned) :
    Inv { s with handles := s.handles.set m w } rest := by
  refine ⟨hi.owns.perm (List.Perm.append_right rest ?_), hi.keyed_set (hm.trans (hi.keyed m v hg))⟩
  refine (Dict.collect_erase _ hg).trans ?_
  rw [← hb]
  exact (Dict.collect_set s.handles _ m w).symm

/-! ## `new` -/

/-- What a successful `new` has done. -/
structure Created (s s' : Handles M) (rest : List Range) (size m : Nat) : Prop where
  inv : Inv s' rest
  fresh : s.handles.get? m = none
  table : ∃ b, s'.handles = s.handles.set m ⟨m, b, size, 0⟩ ∧ s'.heap.guest.word m = b
  keeps : Heap.Keeps s.heap s'.heap (owned s.handles ++ rest)

/-- What a failed operation has done: at most dropped a block on the way. -/
structure Unchanged (s s' : Handles M) (rest : List Range) : Prop where
  inv : Inv s' rest
  table : s'.handles = s.handles
  keeps : Heap.Keeps s.heap s'.heap (owned s.handles ++ rest)

theorem Inv.unchanged (hi : Inv s rest) : Unchanged s s rest :=
  ⟨hi, rfl, Heap.Keeps.of_guest_eq rfl _⟩

/-- A master pointer the allocator hands out is no key of the table. -/
theorem Inv.get?_eq_none (hi : Inv s rest) {h₁ : Heap M} {l : List Range}
    (ho : Heap.Owns h₁ (l ++ (owned s.handles ++ rest))) {m : Nat}
    (hm : h₁.allocations.get? m = none) : s.handles.get? m = none := by
  cases hg : s.handles.get? m with
  | none => rfl
  | some v =>
    have hmem : (v.master, 4) ∈ owned s.handles := Dict.collect_subset hg List.mem_cons_self
    have := ho.live _ (List.mem_append_right _ (List.mem_append_left _ hmem))
    rw [hi.keyed m v hg, hm] at this
    exact absurd this (by simp)

theorem Inv.created (hi : Inv s rest) {h' : Heap M} {m b size : Nat}
    (hf : s.handles.get? m = none)
    (ho : Heap.Owns h' ((m, 4) :: (b, max size 1) :: (owned s.handles ++ rest)))
    (hk : Heap.Keeps s.heap h' (owned s.handles ++ rest)) (hw : h'.guest.word m = b) :
    Created s { heap := h', handles := s.handles.set m ⟨m, b, size, 0⟩ } rest size m where
  inv :=
    ⟨ho.perm ((Dict.collect_set_of_none Handle.owned ⟨m, b, size, 0⟩ hf).symm.append_right rest),
      hi.keyed_set rfl⟩
  fresh := hf
  table := ⟨b, rfl, hw⟩
  keeps := hk

/-- No live allocation is outside the handles and the other owners. -/
def Exact (s : Handles M) (rest : List Range) : Prop :=
  Heap.Exact s.heap (owned s.handles ++ rest)

/-- The block of a new handle fits the heap, and then its master pointer does not. -/
def NewLeaks (s : Handles M) (size : Int) : Prop :=
  0 ≤ size ∧ Heap.SecondFails s.heap (max size.toNat 1) 16 4 4

/-- What a failed `new` has done: nothing, or allocated the block. -/
def NewFailed (s s' : Handles M) (size : Int) : Prop :=
  (s' = s ∧ ¬ NewLeaks s size) ∨
    (NewLeaks s size ∧ ∃ b h₁, Heap.Allocated s.heap h₁ b (max size.toNat 1) ∧
      s' = { s with heap := h₁ })

/-- **`new`** owns a fresh block and a fresh master pointer to it. It fails when one of the two
does not fit, and keeps the block when only the master pointer does not. -/
theorem new_outcome (hi : Inv s rest) (size : Int) (clear : Bool) :
    wp (new size clear)
      (fun m s' => Created s s' rest size.toNat m ∧ ¬ NewLeaks s size ∧
        (Exact s rest → Exact s' rest))
      (fun e s' => e.isHostError = true ∧ NewFailed s s' size) s := by
  simp only [new, validateSize, putHandle, onGuest, onHeap, Heap.onGuest, wp_bind, wp_ite,
    wp_throw, wp_pure, wp_zoom, wp_modify]
  refine ⟨fun hneg => ⟨rfl, Or.inl ⟨rfl, fun hl => absurd hneg (Int.not_lt.mpr hl.1)⟩⟩,
    fun hpos => ?_⟩
  have hpos : 0 ≤ size := Int.not_lt.mp hpos
  refine wp_mono (hi.owns.wf.alloc_outcome size 16 hpos (by decide)) (fun b h₁ ha => ?_)
    fun e h' he => ?_
  · obtain ⟨ha, ht⟩ := ha
    have ho₁ := hi.owns.allocated (by omega) ha
    refine wp_mono (ho₁.wf.alloc_outcome 4 4 (by decide) (by decide))
      (fun m h₂ ha₂ => ?_) fun e h' he => ?_
    · obtain ⟨ha₂, ht₂⟩ := ha₂
      have ho₂ := ho₁.allocated (by decide) ha₂
      have hf : s.handles.get? m = none :=
        hi.get?_eq_none (l := [(b, max size.toNat 1)]) ho₁ (ha₂.get?_eq_none ho₁.wf (by decide))
      have hleak : ¬ NewLeaks s size := fun hl => ht.secondFails_iff.mp hl.2 m ht₂.run
      have hexact : ∀ h' : Heap M, h'.allocations = h₂.allocations → Exact s rest →
          Exact { heap := h', handles := s.handles.set m ⟨m, b, size.toNat, 0⟩ } rest :=
        fun h' he hx => (((Heap.Exact.allocated hx ha).allocated ha₂).of_table_eq he).perm
          ((Dict.collect_set_of_none Handle.owned ⟨m, b, size.toNat, 0⟩ hf).symm.append_right rest)
      have hk₂ : Heap.Keeps s.heap h₂ (owned s.handles ++ rest) :=
        Heap.Keeps.of_guest_eq (ha₂.guest.trans ha.guest) _
      refine wp_mono (ho₂.w32_spec b (le_refl m) (le_refl _)) (fun _ g₃ h₃ => ?_)
        fun _ _ h' => h'.elim
      obtain ⟨⟨-, hword⟩, ho₃, hk₃⟩ := h₃
      rw [ho₂.mod_eq (r := (b, _)) (List.mem_cons_of_mem _ List.mem_cons_self)] at hword
      have hk₃' := hk₂.trans (hk₃.mono (List.subset_cons_self _ _))
      refine ⟨fun _ => ?_, fun _ => ⟨hi.created hf ho₃ hk₃' hword, hleak, hexact _ rfl⟩⟩
      -- Clearing the block leaves the master word alone.
      have hblock := ho₃.perm (List.Perm.swap _ _ _)
      refine wp_mono (hblock.write_spec (by simp) (le_refl b) (by simp)) (fun _ g₄ h₄ => ?_)
        fun _ _ h' => h'.elim
      obtain ⟨-, ho₄, hk₄⟩ := h₄
      refine ⟨hi.created hf (ho₄.perm (List.Perm.swap _ _ _))
        (hk₃'.trans (hk₄.mono (List.subset_cons_self _ _))) ?_, hleak, hexact _ rfl⟩
      exact (hk₄.word_eq (r := (m, _)) List.mem_cons_self (le_refl m) (le_refl _)).trans hword
    · obtain ⟨he, rfl, hnone⟩ := he
      exact ⟨he, Or.inr ⟨⟨hpos, ht.secondFails_iff.mpr hnone⟩, b, _, ha, rfl⟩⟩
  · obtain ⟨he, rfl, hnone⟩ := he
    exact ⟨he, Or.inl ⟨rfl, fun hl => Heap.not_secondFails hnone hl.2⟩⟩

/-- **`new`** owns a fresh block and a fresh master pointer to it. A failure leaks at most the
block. -/
theorem new_spec (hi : Inv s rest) (size : Int) (clear : Bool) :
    wp (new size clear) (fun m s' => Created s s' rest size.toNat m)
      (fun e s' => e.isHostError = true ∧ Unchanged s s' rest) s := by
  refine wp_mono (new_outcome hi size clear) (fun _ _ h => h.1) fun e s' he => ⟨he.1, ?_⟩
  rcases he.2 with ⟨rfl, -⟩ | ⟨-, b, h₁, ha, rfl⟩
  · exact hi.unchanged
  · exact ⟨⟨(hi.owns.allocated (by omega) ha).tail, hi.keyed⟩, rfl,
      Heap.Keeps.of_guest_eq ha.guest _⟩

/-! ## `dispose` -/

/-- What a successful `dispose` of `m` has done. -/
structure Disposed (s s' : Handles M) (rest : List Range) (m : Nat) : Prop where
  inv : Inv s' rest
  table : s'.handles = s.handles.erase m
  guest : s'.heap.guest = s.heap.guest
  free : ∀ v, s.handles.get? m = some v → ∀ x, Covers v.owned x → Covers s'.heap.freeList x

theorem getHandle_wp {master : Int} {Q : Handle → Handles M → Prop}
    {E : Exc → Handles M → Prop}
    (hok : ∀ v, s.handles.get? master.toNat = some v → (master.toNat : Int) = master → Q v s)
    (herr : s.handles.find? master = none → E (invalidHandle master) s) :
    wp (getHandle master) Q E s := by
  simp only [getHandle, wp_bind, wp_get]
  cases hf : s.handles.find? master with
  | none => exact herr hf
  | some v => exact hok v (Dict.find?_eq_some hf).1 (Dict.find?_eq_some hf).2

/-- **`dispose`** frees exactly the blocks of its handle; it fails only on an unknown handle. -/
theorem dispose_outcome (hi : Inv s rest) (master : Int) :
    wp (dispose master)
      (fun _ s' => ((master.toNat : Int) = master ∧ Disposed s s' rest master.toNat) ∧
        (Exact s rest → Exact s' rest))
      (fun e s' => e.isHostError = true ∧ s' = s ∧ s.handles.find? master = none) s := by
  simp only [dispose, onHeap, wp_bind]
  refine getHandle_wp (fun v hg hm => ?_) fun hf => ⟨rfl, rfl, hf⟩
  simp only [wp_modify, wp_zoom]
  have hperm := ((Dict.collect_erase Handle.owned hg).append_right rest).trans
    (List.Perm.swap _ _ _)
  refine (wp_bind _ _).mp (wp_mono (hi.owns.perm hperm).free_two (fun _ h' hf => ?_)
    fun _ _ h' => h'.elim)
  obtain ⟨ho, hx, hguest, hc⟩ := hf
  refine ⟨⟨hm, ⟨ho, hi.keyed_erase _⟩, rfl, hguest, fun w hw x hx' => (hc x).mpr (Or.inr ?_)⟩,
    fun he => hx (Heap.Exact.perm he hperm)⟩
  rw [hg, Option.some.injEq] at hw
  obtain ⟨r, hr, hx'⟩ := hx'
  rw [← hw] at hr
  simp only [Handle.owned, List.mem_cons, List.not_mem_nil, or_false] at hr
  rcases hr with rfl | rfl
  · exact Or.inr hx'
  · exact Or.inl hx'

theorem dispose_spec (hi : Inv s rest) (master : Int) :
    wp (dispose master)
      (fun _ s' => (master.toNat : Int) = master ∧ Disposed s s' rest master.toNat)
      (fun e s' => e.isHostError = true ∧ s' = s ∧ s.handles.find? master = none) s :=
  wp_mono (dispose_outcome hi master) (fun _ _ h => h.1) fun _ _ h => h

/-! ## `resize` -/

/-- What a successful `resize` of `m` has done. -/
structure Resized (s s' : Handles M) (rest : List Range) (m size : Nat) : Prop where
  inv : Inv s' rest
  table : ∃ v b, s.handles.get? m = some v ∧
    s'.handles = s.handles.set m { v with block := b, requestedSize := size } ∧
    s'.heap.guest.word m = b
  keeps : Heap.Keeps s.heap s'.heap (owned (s.handles.erase m) ++ rest)

/-- What a successful `resize` of `m` has done to its block: the contents are kept, and a locked
block stays where it is. -/
structure Kept (s s' : Handles M) (m size p : Nat) : Prop where
  record : ∃ v, s.handles.get? m = some v ∧
    s'.handles = s.handles.set m { v with block := p, requestedSize := size } ∧
    (v.stateBits &&& 0x80 ≠ 0 → p = v.block) ∧
    ByteMemory.bytes s'.heap.guest.uc p (min v.requestedSize size) =
      ByteMemory.bytes s.heap.guest.uc v.block (min v.requestedSize size)

/-- **`resize`** resizes or moves the block and stores its address in the master word. -/
theorem resize_outcome (hi : Inv s rest) (master size : Int) :
    wp (resize master size)
      (fun p s' => ((master.toNat : Int) = master ∧ Resized s s' rest master.toNat size.toNat) ∧
        Kept s s' master.toNat size.toNat p ∧ (Exact s rest → Exact s' rest))
      (fun e s' => e.isHostError = true ∧ s' = s) s := by
  simp only [resize, validateSize, putHandle, onGuest, onHeap, Heap.onGuest, wp_bind, wp_ite,
    wp_throw, wp_pure]
  refine ⟨fun _ => ⟨rfl, trivial⟩, fun _ => ?_⟩
  refine getHandle_wp (fun v hg hm => ?_) fun _ => ⟨rfl, rfl⟩
  simp only [wp_zoom, wp_modify]
  have hperm := ((Dict.collect_erase Handle.owned hg).append_right rest).trans
    (List.Perm.swap _ _ _)
  have ho := hi.owns.perm hperm
  have hvm := hi.keyed _ v hg
  refine wp_mono (Heap.realloc_spec hi.owns.wf v.block size _) (fun b h₁ hr => ?_) fun e h' he => ?_
  · obtain ⟨old, hold, hr, hstay⟩ := hr
    rw [Dict.find?_natCast, ho.head, Option.some.injEq] at hold
    rw [Int.toNat_natCast, ← hold] at hr
    rw [Int.toNat_natCast] at hstay
    have hnew := (Dict.collect_set s.handles Handle.owned master.toNat
      { v with block := b, requestedSize := size.toNat }).symm.append_right rest
    have ho₁ := (ho.reallocated hr).perm (List.Perm.swap _ _ _)
    have hk₁ := ho.keeps_realloc hr
    refine wp_mono (ho₁.w32_spec b (show v.master ≤ master.toNat by omega)
      (show master.toNat + 4 ≤ v.master + 4 by omega)) (fun _ g₂ h₂ => ?_) fun _ _ h' => h'.elim
    obtain ⟨⟨-, hword⟩, ho₂, hk₂⟩ := h₂
    rw [ho₁.mod_eq (r := (b, _)) (List.mem_cons_of_mem _ List.mem_cons_self)] at hword
    refine ⟨⟨hm, ⟨ho₂.perm hnew, hi.keyed_set hvm⟩, ⟨v, b, hg, rfl, hword⟩, ?_⟩,
      ⟨v, hg, rfl, fun hlock => hstay (Or.inl (by simpa using hlock)), ?_⟩, fun hx => ?_⟩
    · refine (hk₁.mono fun r hr' => ?_).trans (hk₂.mono (List.subset_cons_self _ _))
      exact List.mem_cons_of_mem _ (List.mem_cons_of_mem _ hr')
    · -- The write of the master word does not meet the block.
      refine (hk₂.bytes_eq (r := (b, _)) List.mem_cons_self (by simp only; omega)).trans ?_
      exact ByteMemory.bytes_prefix hr.copied (by omega)
    · exact (((Heap.Exact.perm hx hperm).reallocated hr).perm (List.Perm.swap _ _ _)).perm hnew
  · obtain ⟨he, rfl⟩ := he
    exact ⟨he, rfl⟩

theorem resize_spec (hi : Inv s rest) (master size : Int) :
    wp (resize master size)
      (fun _ s' => (master.toNat : Int) = master ∧ Resized s s' rest master.toNat size.toNat)
      (fun e s' => e.isHostError = true ∧ s' = s) s :=
  wp_mono (resize_outcome hi master size) (fun _ _ h => h.1) fun _ _ h => h

/-! ## `lock`, `unlock`, `set_state` -/

/-- What a change of the state bits of `m` has done. -/
structure Marked (s s' : Handles M) (rest : List Range) (m : Nat) : Prop where
  inv : Inv s' rest
  table : ∃ v bits, s.handles.get? m = some v ∧
    s'.handles = s.handles.set m { v with stateBits := bits }
  heap : s'.heap = s.heap

/-- The three operations on the state bits. -/
theorem mark_spec (hi : Inv s rest) (master : Int) (f : Nat → Nat) :
    wp (do
        let handle ← getHandle master
        putHandle master.toNat { handle with stateBits := f handle.stateBits })
      (fun _ s' => (master.toNat : Int) = master ∧ Marked s s' rest master.toNat)
      (fun e s' => e.isHostError = true ∧ s' = s) s := by
  simp only [wp_bind]
  refine getHandle_wp (fun v hg hm => ?_) fun _ => ⟨rfl, rfl⟩
  exact ⟨hm, hi.replace hg rfl rfl, ⟨v, _, hg, rfl⟩, rfl⟩

theorem Marked.exact {m : Nat} {s' : Handles M} (hk : Marked s s' rest m)
    (hx : Exact s rest) : Exact s' rest := by
  obtain ⟨v, bits, hg, htab⟩ := hk.table
  unfold Exact
  rw [hk.heap, htab]
  refine Heap.Exact.perm hx (List.Perm.append_right rest ?_)
  exact (Dict.collect_erase _ hg).trans (Dict.collect_set s.handles Handle.owned m
    { v with stateBits := bits }).symm

theorem lock_spec (hi : Inv s rest) (master : Int) :
    wp (lock master)
      (fun _ s' => (master.toNat : Int) = master ∧ Marked s s' rest master.toNat)
      (fun e s' => e.isHostError = true ∧ s' = s) s := mark_spec hi master (· ||| 0x80)

theorem unlock_spec (hi : Inv s rest) (master : Int) :
    wp (unlock master)
      (fun _ s' => (master.toNat : Int) = master ∧ Marked s s' rest master.toNat)
      (fun e s' => e.isHostError = true ∧ s' = s) s := mark_spec hi master (· &&& 0x7F)

theorem setState_spec (hi : Inv s rest) (master state : Int) :
    wp (setState master state)
      (fun _ s' => (master.toNat : Int) = master ∧ Marked s s' rest master.toNat)
      (fun e s' => e.isHostError = true ∧ s' = s) s := by
  simp only [setState, wp_bind, wp_ite, wp_throw]
  exact ⟨fun _ => ⟨rfl, trivial⟩,
    fun _ => wp_bind _ _ |>.mp (mark_spec hi master fun _ => state.toNat)⟩

end Handles

end Cwhost
