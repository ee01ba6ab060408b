import Cwhost.Memory.Handles

/-!
# The two handle tables of a session (`session.py`, `Session`)

A session keeps the classic handles and, on the same heap, a table of `CWMemHandle`s: records of
eight guest bytes, the address of a block and its size. `HandleTables` is that part of the
session's state, with the methods that work on it.
-/

namespace Cwhost

open Lib

/-- `_CWMemHandle`. -/
structure CWMemHandle where
  handle : Nat
  block : Nat
  size : Nat
  requestScoped : Bool
  deriving DecidableEq, Repr

/-- The two tables of handles of a session, on one heap. -/
structure HandleTables (M : ByteMemory) where
  /-- `handles`; `heap` and `guest` are theirs. -/
  classic : Handles M
  /-- `_cw_handles`. -/
  cwHandles : Dict Nat CWMemHandle

namespace HandleTables

variable {M : ByteMemory}

/-- `heap`. -/
def heap (s : HandleTables M) : Heap M := s.classic.heap

/-- The tables of a new session, on a fresh heap. -/
def new (heap : Heap M) : HandleTables M :=
  { classic := { heap := heap, handles := .empty }, cwHandles := .empty }

/-- Run an operation of the classic handles. -/
def onHandles {α : Type} (x : EStateM Exc (Handles M) α) : EStateM Exc (HandleTables M) α :=
  zoom HandleTables.classic (fun s t => { s with classic := t }) x

/-- Run an operation of the heap. -/
def onHeap {α : Type} (x : EStateM Exc (Heap M) α) : EStateM Exc (HandleTables M) α :=
  onHandles (Handles.onHeap x)

/-- Run an operation of the guest. -/
def onGuest {α : Type} (x : EStateM Exc (Guest M) α) : EStateM Exc (HandleTables M) α :=
  onHandles (Handles.onGuest x)

/-- The error for an unknown `CWMemHandle`. -/
def invalidCWMemHandle (handle : Int) : Exc := .hostError s!"invalid CWMemHandle {hexInt handle}"

/-- `_alloc_cw_handle`. -/
def allocCwHandle (raw : List UInt8) (requestScoped : Bool) :
    EStateM Exc (HandleTables M) Nat := do
  let handle ← onHeap (Heap.alloc 8 4)
  let block ← onHeap (Heap.alloc raw.length 4)
  if raw ≠ [] then
    onGuest (Guest.write block raw)
  onGuest (Guest.w32 handle block)
  onGuest (Guest.w32 (handle + 4) raw.length)
  let item : CWMemHandle :=
    { handle := handle, block := block, size := raw.length, requestScoped := requestScoped }
  modify fun s => { s with cwHandles := s.cwHandles.set handle item }
  return handle

/-- `_cw_handle`: the record, checked against the words in guest memory. -/
def cwHandle (handle : Int) : EStateM Exc (HandleTables M) CWMemHandle := do
  let s ← get
  match s.cwHandles.find? handle with
  | none => throw (invalidCWMemHandle handle)
  | some item =>
    let block ← onGuest (Guest.u32 handle.toNat)
    let size ← onGuest (Guest.u32 (handle.toNat + 4))
    if block ≠ item.block ∨ size ≠ item.size then
      throw (.hostError s!"modified CWMemHandle {hexInt handle}")
    return item

/-- `_cw_handle_bytes`. -/
def cwHandleBytes (handle : Int) : EStateM Exc (HandleTables M) (List UInt8) := do
  let item ← cwHandle handle
  onGuest (Guest.read item.block item.size)

/-- `_free_cw_handle`. -/
def freeCwHandle (handle : Int) : EStateM Exc (HandleTables M) Unit := do
  let s ← get
  match s.cwHandles.find? handle with
  | none => throw (invalidCWMemHandle handle)
  | some item =>
    set { s with cwHandles := s.cwHandles.erase handle.toNat }
    onHeap (Heap.free item.block)
    onHeap (Heap.free item.handle)

/-- The loop of `_free_request_handles` over the items of the table. -/
def freeScoped : List (Nat × CWMemHandle) → EStateM Exc (HandleTables M) Unit
  | [] => pure ()
  | (address, item) :: items => do
    if item.requestScoped then
      freeCwHandle address
    freeScoped items

/-- `_free_request_handles`. -/
def freeRequestHandles : EStateM Exc (HandleTables M) Unit := do
  let s ← get
  freeScoped s.cwHandles.items

end HandleTables

/-- The heap blocks of a `CWMemHandle`. -/
def CWMemHandle.owned (c : CWMemHandle) : List Range := [(c.handle, 8), (c.block, max c.size 1)]

namespace HandleTables

variable {M : ByteMemory} {s s' : HandleTables M}

/-- The heap blocks of all `CWMemHandle`s of a table. -/
def cwOwned (cwHandles : Dict Nat CWMemHandle) : List Range :=
  cwHandles.collect CWMemHandle.owned

/-- The heap blocks of all handles of both tables. -/
def owned (s : HandleTables M) : List Range :=
  Handles.owned s.classic.handles ++ cwOwned s.cwHandles

/-- **The ownership invariant**: the blocks of all handles are live, of the handles' sizes, and
pairwise different. It says nothing of the contents of the memory. -/
structure Inv (s : HandleTables M) : Prop where
  classic : s.classic.Inv (cwOwned s.cwHandles)
  cwKeyed : ∀ a c, s.cwHandles.get? a = some c → c.handle = a

/-- **The guest words**: master words hold their blocks, `CWMemHandle` words block and size. -/
structure Words (s : HandleTables M) : Prop where
  classic : s.classic.Words
  cwBlock : ∀ a c, s.cwHandles.get? a = some c → s.heap.guest.word a = c.block
  cwSize : ∀ a c, s.cwHandles.get? a = some c → s.heap.guest.word (a + 4) = c.size

theorem Inv.owns (hi : Inv s) : Heap.Owns s.heap s.owned := hi.classic.owns

theorem Inv.cw_keyed_set (hi : Inv s) {a : Nat} {c : CWMemHandle} (hc : c.handle = a) :
    ∀ q d, (s.cwHandles.set a c).get? q = some d → d.handle = q := by
  intro q d hq
  rw [Dict.get?_set] at hq
  split at hq
  · rename_i hqa
    rw [← Option.some.inj hq, hc, hqa]
  · exact hi.cwKeyed q d hq

theorem Inv.cw_keyed_erase (hi : Inv s) (a : Nat) :
    ∀ q d, (s.cwHandles.erase a).get? q = some d → d.handle = q := by
  intro q d hq
  rw [Dict.get?_erase] at hq
  split at hq
  · exact absurd hq (by simp)
  · exact hi.cwKeyed q d hq

/-! ## `_alloc_cw_handle` -/

/-- What a successful `_alloc_cw_handle` has done. -/
structure CwCreated (s s' : HandleTables M) (size : Nat) (requestScoped : Bool) (a : Nat) :
    Prop where
  inv : Inv s'
  fresh : s.cwHandles.get? a = none
  classic : s'.classic.handles = s.classic.handles
  table : ∃ b, s'.cwHandles = s.cwHandles.set a ⟨a, b, size, requestScoped⟩ ∧
    s'.heap.guest.word a = b ∧ s'.heap.guest.word (a + 4) = size
  keeps : Heap.Keeps s.heap s'.heap s.owned

/-- What a failed operation has done: at most dropped a block on the way. -/
structure Unchanged (s s' : HandleTables M) : Prop where
  inv : Inv s'
  classic : s'.classic.handles = s.classic.handles
  cwHandles : s'.cwHandles = s.cwHandles
  keeps : Heap.Keeps s.heap s'.heap s.owned

theorem Inv.unchanged (hi : Inv s) : Unchanged s s :=
  ⟨hi, rfl, rfl, Heap.Keeps.of_guest_eq rfl _⟩

theorem Inv.cw_get?_eq_none (hi : Inv s) {a : Nat} (ha : s.heap.allocations.get? a = none) :
    s.cwHandles.get? a = none := by
  cases hg : s.cwHandles.get? a with
  | none => rfl
  | some c =>
    have hmem : (c.handle, 8) ∈ cwOwned s.cwHandles := Dict.collect_subset hg List.mem_cons_self
    have := hi.owns.live _ (List.mem_append_right _ hmem)
    rw [hi.cwKeyed a c hg, ha] at this
    exact absurd this (by simp)

theorem Inv.cwCreated (hi : Inv s) {h' : Heap M} {a b size : Nat} {requestScoped : Bool}
    (hf : s.cwHandles.get? a = none)
    (ho : Heap.Owns h' ((a, 8) :: (b, max size 1) :: s.owned))
    (hk : Heap.Keeps s.heap h' s.owned) (hb : h'.guest.word a = b)
    (hs : h'.guest.word (a + 4) = size) :
    CwCreated s
      { classic := { s.classic with heap := h' },
        cwHandles := s.cwHandles.set a ⟨a, b, size, requestScoped⟩ } size requestScoped a := by
  refine ⟨⟨⟨ho.perm ?_, hi.classic.keyed⟩, hi.cw_keyed_set rfl⟩, hf, rfl, ⟨b, rfl, hb, hs⟩, hk⟩
  have hset := Dict.collect_set_of_none CWMemHandle.owned ⟨a, b, size, requestScoped⟩ hf
  refine List.Perm.trans ?_ (List.Perm.append_left _ hset.symm)
  exact List.perm_append_comm_assoc [(a, 8), (b, max size 1)] _ _

/-- The words of a new `CWMemHandle` at the head of an owned list. -/
theorem record_spec {h : Heap M} {a b n size : Nat} {l : List Range}
    (ho : Heap.Owns h ((a, 8) :: (b, n) :: l)) (hs : size ≤ n) :
    wp (Guest.w32 a b >>= fun _ => Guest.w32 (a + 4) size)
      (fun _ g => Heap.Owns { h with guest := g } ((a, 8) :: (b, n) :: l) ∧
        Heap.Keeps h { h with guest := g } l ∧ g.word a = b ∧ g.word (a + 4) = size)
      (fun _ _ => False) h.guest := by
  have hb := ho.mod_eq (r := (b, n)) (List.mem_cons_of_mem _ List.mem_cons_self)
  have hsize : size % 2 ^ 32 = size := by
    refine Nat.mod_eq_of_lt ?_
    have h1 := (ho.accessible (List.mem_cons_self)).below
    have h2 := (ho.accessible (List.mem_cons_of_mem _ List.mem_cons_self)).below
    by_contra hge
    -- A block of all addresses would contain the record.
    refine ho.disjoint List.mem_cons_self (x := a) ?_ ⟨le_refl _, by simp⟩
    unfold Has
    simp only at h1 h2 ⊢
    omega
  rw [wp_bind]
  refine wp_mono (ho.w32_spec b (le_refl a) (by simp)) (fun _ g₁ h₁ => ?_) fun _ _ h' => h'.elim
  obtain ⟨⟨-, hw₁⟩, ho₁, hk₁⟩ := h₁
  refine wp_mono (ho₁.w32_spec size (Nat.le_add_right a 4) (le_refl _)) (fun _ g₂ h₂ => ?_)
    fun _ _ h' => h'.elim
  obtain ⟨⟨hwr, hw₂⟩, ho₂, hk₂⟩ := h₂
  refine ⟨ho₂, (hk₁.trans hk₂).mono (List.subset_cons_self _ _), ?_, hw₂.trans hsize⟩
  refine (hwr.word_eq fun x hx => ?_).trans (hw₁.trans hb)
  rw [toBE_length]
  unfold Has at hx ⊢
  omega

/-- The record of a new `CWMemHandle` fits the heap, and then its block does not. -/
def CwLeaks (s : HandleTables M) (raw : List UInt8) : Prop :=
  Heap.SecondFails s.heap 8 4 (max raw.length 1) 4

/-- The tables with another heap. -/
def withHeap (s : HandleTables M) (heap : Heap M) : HandleTables M :=
  { s with classic := { s.classic with heap := heap } }

/-- What a failed `_alloc_cw_handle` has done: nothing, or allocated the record. -/
def CwFailed (s s' : HandleTables M) (raw : List UInt8) : Prop :=
  (s' = s ∧ ¬ CwLeaks s raw) ∨
    (CwLeaks s raw ∧ ∃ a h₁, Heap.Allocated s.heap h₁ a 8 ∧ s' = s.withHeap h₁)

/-- No live allocation is outside the handles of the two tables. -/
def Exact (s : HandleTables M) : Prop := s.classic.Exact (cwOwned s.cwHandles)

theorem Exact.cwCreated {a b size : Nat} {requestScoped : Bool} {h' : Heap M}
    (hf : s.cwHandles.get? a = none)
    (hx : Heap.Exact h' ((a, 8) :: (b, max size 1) :: s.owned)) :
    Exact
      { classic := { s.classic with heap := h' },
        cwHandles := s.cwHandles.set a ⟨a, b, size, requestScoped⟩ } := by
  have hset := Dict.collect_set_of_none CWMemHandle.owned ⟨a, b, size, requestScoped⟩ hf
  refine hx.perm (List.Perm.trans ?_ (List.Perm.append_left _ hset.symm))
  exact List.perm_append_comm_assoc [(a, 8), (b, max size 1)] _ _

/-- **`_alloc_cw_handle`** owns a fresh record and a fresh block. It fails when one of the two
does not fit, and keeps the record when only the block does not. -/
theorem allocCwHandle_outcome (hi : Inv s) (raw : List UInt8) (requestScoped : Bool) :
    wp (allocCwHandle raw requestScoped)
      (fun a s' => CwCreated s s' raw.length requestScoped a ∧ ¬ CwLeaks s raw ∧
        (Exact s → Exact s'))
      (fun e s' => e.isHostError = true ∧ CwFailed s s' raw) s := by
  simp only [allocCwHandle, onGuest, onHeap, onHandles, Handles.onGuest, Handles.onHeap,
    Heap.onGuest, wp_bind, wp_ite, wp_pure, wp_zoom, wp_modify]
  refine wp_mono (hi.owns.wf.alloc_outcome 8 4 (by decide) (by decide))
    (fun a h₁ ha => ?_) fun e h' he => ?_
  · obtain ⟨ha, ht⟩ := ha
    have ho₁ := hi.owns.allocated (by decide) ha
    have hf := hi.cw_get?_eq_none (ha.get?_eq_none hi.owns.wf (by decide))
    refine wp_mono (ho₁.wf.alloc_outcome raw.length 4 (by omega) (by decide))
      (fun b h₂ hb => ?_) fun e h' he => ?_
    · obtain ⟨hb, ht₂⟩ := hb
      have ho₂ := ho₁.allocated (by omega) hb
      have hk₂ : Heap.Keeps s.heap h₂ s.owned := Heap.Keeps.of_guest_eq (hb.guest.trans ha.guest) _
      rw [Int.toNat_natCast] at ho₂ hb ht₂
      have hleak : ¬ CwLeaks s raw := fun hl => ht.secondFails_iff.mp hl b ht₂.run
      have hexact : ∀ h' : Heap M, h'.allocations = h₂.allocations → Exact s →
          Exact { classic := { s.classic with heap := h' },
                  cwHandles := s.cwHandles.set a ⟨a, b, raw.length, requestScoped⟩ } :=
        fun h' he hx => Exact.cwCreated hf
          (((((Heap.Exact.allocated hx ha).allocated hb).of_table_eq he)).perm
            (List.Perm.swap _ _ _))
      refine ⟨fun hne => ?_, fun _ => ?_⟩
      · refine wp_mono (ho₂.write_spec (List.length_pos_of_ne_nil hne) (le_refl b)
          (by simp only; omega)) (fun _ g₃ h₃ => ?_) fun _ _ h' => h'.elim
        obtain ⟨-, ho₃, hk₃⟩ := h₃
        have hk₃' := hk₂.trans (hk₃.mono (List.subset_cons_self _ _))
        refine (wp_bind _ _).mp (wp_mono (record_spec (ho₃.perm (List.Perm.swap _ _ _))
          (le_max_left _ _)) (fun _ g hr => ?_) fun _ _ h' => h'.elim)
        obtain ⟨ho', hk', hwb, hws⟩ := hr
        exact ⟨hi.cwCreated hf ho' (hk₃'.trans hk') hwb hws, hleak, hexact _ rfl⟩
      · refine (wp_bind _ _).mp (wp_mono (record_spec (ho₂.perm (List.Perm.swap _ _ _))
          (le_max_left _ _)) (fun _ g hr => ?_) fun _ _ h' => h'.elim)
        obtain ⟨ho', hk', hwb, hws⟩ := hr
        exact ⟨hi.cwCreated hf ho' (hk₂.trans hk') hwb hws, hleak, hexact _ rfl⟩
    · obtain ⟨he, rfl, hnone⟩ := he
      rw [Int.toNat_natCast] at hnone
      exact ⟨he, Or.inr ⟨ht.secondFails_iff.mpr hnone, a, _, ha, rfl⟩⟩
  · obtain ⟨he, rfl, hnone⟩ := he
    exact ⟨he, Or.inl ⟨rfl, fun hl => Heap.not_secondFails hnone hl⟩⟩

/-- **`_alloc_cw_handle`** owns a fresh record and a fresh block. A failure leaks at most the
record. -/
theorem allocCwHandle_spec (hi : Inv s) (raw : List UInt8) (requestScoped : Bool) :
    wp (allocCwHandle raw requestScoped) (fun a s' => CwCreated s s' raw.length requestScoped a)
      (fun e s' => e.isHostError = true ∧ Unchanged s s') s := by
  refine wp_mono (allocCwHandle_outcome hi raw requestScoped) (fun _ _ h => h.1)
    fun e s' he => ⟨he.1, ?_⟩
  rcases he.2 with ⟨rfl, -⟩ | ⟨-, a, h₁, ha, rfl⟩
  · exact hi.unchanged
  · exact ⟨⟨⟨(hi.owns.allocated (by decide) ha).tail, hi.classic.keyed⟩, hi.cwKeyed⟩, rfl, rfl,
      Heap.Keeps.of_guest_eq ha.guest _⟩

/-! ## `_free_cw_handle` and `_free_request_handles` -/

/-- What removing `CWMemHandle`s has done: those that stay are the ones `keep` holds of. -/
structure CwFreed (s s' : HandleTables M) (keep : Nat × CWMemHandle → Bool) : Prop where
  inv : Inv s'
  classic : s'.classic.handles = s.classic.handles
  table : s'.cwHandles.items = s.cwHandles.items.filter keep
  guest : s'.heap.guest = s.heap.guest
  /-- The bytes of the removed handles are free again. -/
  free : ∀ x, Covers s.heap.freeList x ∨
    (∃ e ∈ s.cwHandles.items, keep e = false ∧ Covers e.2.owned x) → Covers s'.heap.freeList x

/-- **`_free_cw_handle`** frees exactly the blocks of its handle; it fails only on an unknown
handle. -/
theorem freeCwHandle_outcome (hi : Inv s) (handle : Int) :
    wp (freeCwHandle handle)
      (fun _ s' => ((handle.toNat : Int) = handle ∧
        CwFreed s s' fun e => decide (e.1 ≠ handle.toNat)) ∧ (Exact s → Exact s'))
      (fun e s' => e.isHostError = true ∧ s' = s ∧ s.cwHandles.find? handle = none) s := by
  simp only [freeCwHandle, onHeap, onHandles, Handles.onHeap, wp_bind, wp_get]
  cases hf : s.cwHandles.find? handle with
  | none => exact ⟨rfl, rfl, rfl⟩
  | some c =>
    obtain ⟨hg, hnat⟩ := Dict.find?_eq_some hf
    simp only [wp_bind, wp_set, wp_zoom]
    have hperm := ((List.Perm.append_left (Handles.owned s.classic.handles)
      (Dict.collect_erase CWMemHandle.owned hg)).trans
        (List.perm_append_comm_assoc _ _ _)).trans (List.Perm.swap _ _ _)
    refine (wp_bind _ _).mp (wp_mono (hi.owns.perm hperm).free_two (fun _ h' hfree => ?_)
      fun _ _ h' => h'.elim)
    obtain ⟨ho, hx, hguest, hc⟩ := hfree
    refine ⟨⟨hnat, ⟨⟨ho, hi.classic.keyed⟩, hi.cw_keyed_erase _⟩, rfl, rfl, hguest,
      fun x hx' => (hc x).mpr (hx'.imp_right ?_)⟩, fun he => hx (Heap.Exact.perm he hperm)⟩
    rintro ⟨e, he, hk, hx'⟩
    have hec : e.2 = c := by
      have h3 := Dict.get?_eq_some_iff.mpr (show (e.1, e.2) ∈ s.cwHandles.items from he)
      rw [show e.1 = handle.toNat by simpa using hk, hg] at h3
      exact (Option.some.inj h3).symm
    rw [hec] at hx'
    obtain ⟨r, hr, hx'⟩ := hx'
    simp only [CWMemHandle.owned, List.mem_cons, List.not_mem_nil, or_false] at hr
    rcases hr with rfl | rfl
    · exact Or.inr hx'
    · exact Or.inl hx'

theorem freeCwHandle_spec (hi : Inv s) (handle : Int) :
    wp (freeCwHandle handle)
      (fun _ s' => (handle.toNat : Int) = handle ∧
        CwFreed s s' fun e => decide (e.1 ≠ handle.toNat))
      (fun e s' => e.isHostError = true ∧ s' = s ∧ s.cwHandles.find? handle = none) s :=
  wp_mono (freeCwHandle_outcome hi handle) (fun _ _ h => h.1) fun _ _ h => h

theorem CwFreed.trans {s'' : HandleTables M} {k₁ k₂ k : Nat × CWMemHandle → Bool}
    (h1 : CwFreed s s' k₁) (h2 : CwFreed s' s'' k₂)
    (hk : ∀ e ∈ s.cwHandles.items, (k₁ e && k₂ e) = k e) : CwFreed s s'' k where
  inv := h2.inv
  classic := h2.classic.trans h1.classic
  table := by
    rw [h2.table, h1.table, List.filter_filter]
    exact List.filter_congr fun e he => by rw [← hk e he, Bool.and_comm]
  guest := h2.guest.trans h1.guest
  free x hx := by
    refine h2.free x ?_
    rcases hx with hx | ⟨e, he, hke, hx⟩
    · exact Or.inl (h1.free x (Or.inl hx))
    · cases hk1 : k₁ e with
      | false => exact Or.inl (h1.free x (Or.inr ⟨e, he, hk1, hx⟩))
      | true =>
        refine Or.inr ⟨e, by rw [h1.table]; exact List.mem_filter.mpr ⟨he, hk1⟩, ?_, hx⟩
        have := hk e he
        rwa [hk1, Bool.true_and, hke] at this

theorem CwFreed.congr {k k' : Nat × CWMemHandle → Bool} (h : CwFreed s s' k)
    (hk : ∀ e ∈ s.cwHandles.items, k e = k' e) : CwFreed s s' k' where
  inv := h.inv
  classic := h.classic
  table := h.table.trans (List.filter_congr hk)
  guest := h.guest
  free x hx := h.free x (hx.imp_right fun ⟨e, he, hke, hx⟩ => ⟨e, he, (hk e he).trans hke, hx⟩)

theorem Inv.cwFreed_refl (hi : Inv s) {k : Nat × CWMemHandle → Bool}
    (hk : ∀ e ∈ s.cwHandles.items, k e = true) : CwFreed s s k :=
  ⟨hi, rfl, (List.filter_eq_self.mpr hk).symm, rfl, fun x hx => hx.elim id fun ⟨e, he, hke, _⟩ =>
    absurd (hk e he) (by simp [hke])⟩

/-- The loop frees the request-scoped handles of its list, one after the other, and never
fails: each of them is still there when its turn comes. -/
theorem freeScoped_spec (l : List (Nat × CWMemHandle)) {s : HandleTables M} (hi : Inv s)
    (hsub : l ⊆ s.cwHandles.items) (hnd : (l.map Prod.fst).Nodup) :
    wp (freeScoped l)
      (fun _ s' => CwFreed s s' fun e => decide (e ∉ l.filter fun e => e.2.requestScoped))
      (fun _ _ => False) s := by
  induction l generalizing s with
  | nil => exact hi.cwFreed_refl fun _ _ => by simp
  | cons e l ih =>
    obtain ⟨a, c⟩ := e
    rw [List.map_cons, List.nodup_cons] at hnd
    have hac : (a, c) ∈ s.cwHandles.items := hsub List.mem_cons_self
    have hl : l ⊆ s.cwHandles.items := fun _ he => hsub (List.mem_cons_of_mem _ he)
    simp only [freeScoped, wp_bind, wp_ite]
    refine ⟨fun hsc => ?_, fun hsc => ?_⟩
    · refine wp_mono (freeCwHandle_spec hi (a : Int)) (fun _ s₁ h₁ => ?_) fun _ _ he => ?_
      · obtain ⟨-, h₁⟩ := h₁
        rw [Int.toNat_natCast] at h₁
        have hl₁ : l ⊆ s₁.cwHandles.items := fun e he => by
          rw [h₁.table, List.mem_filter]
          refine ⟨hl he, decide_eq_true fun hea => hnd.1 ?_⟩
          simp only at hea ⊢
          exact hea ▸ List.mem_map_of_mem he
        refine wp_mono (ih h₁.inv hl₁ hnd.2) (fun _ s₂ h₂ => ?_) fun _ _ h' => h'
        refine h₁.trans h₂ fun e he => ?_
        have hea : e.1 = a ↔ e = (a, c) := by
          refine ⟨fun h => ?_, fun h => by rw [h]⟩
          have h1 := Dict.get?_eq_some_iff.mpr hac
          have h2 := Dict.get?_eq_some_iff.mpr (show (e.1, e.2) ∈ _ from he)
          rw [h, h1] at h2
          exact Prod.ext h (Option.some.inj h2).symm
        simp [hea, hsc]
      · rw [Dict.find?_natCast, Dict.get?_eq_some_iff.mpr hac] at he
        simp at he
    · refine wp_mono (ih hi hl hnd.2) (fun _ s₂ h₂ => ?_) fun _ _ h' => h'
      simpa [hsc] using h₂

/-- **`_free_request_handles`** frees exactly the request-scoped handles and never fails. -/
theorem freeRequestHandles_spec (hi : Inv s) :
    wp freeRequestHandles (fun _ s' => CwFreed s s' fun e => !e.2.requestScoped)
      (fun _ _ => False) s := by
  simp only [freeRequestHandles, wp_bind, wp_get]
  refine wp_mono (freeScoped_spec _ hi (fun _ he => he) s.cwHandles.nodup) (fun _ s' h => ?_)
    fun _ _ h' => h'
  refine h.congr fun e he => ?_
  cases hs : e.2.requestScoped <;> simp [List.mem_filter, he, hs]

end HandleTables

end Cwhost
