import Cwhost.Session.Ownership

/-!
# Locked handles and the contents of resized ones

* `call_keeps_block`: one operation, on this handle or any other, leaves the block of a handle
  that was locked before it and is there after it where it is.
* `locked_stays`: hence a handle that stays locked answers one address over any run, and a resize
  keeps the contents whether it moves the block or not.
-/

namespace Cwhost.HandleTables

open Lib

variable {M : ByteMemory} {s s' : HandleTables M} {m : Nat} {v : Handle}

/-- Bit 0x80 of the handle's state is set. -/
def Locked (s : HandleTables M) (m : Nat) : Prop :=
  ∃ v, s.classic.handles.get? m = some v ∧ v.stateBits &&& 0x80 ≠ 0

/-- A run on which `m` is locked in every state. -/
inductive LockedRun (m : Nat) : HandleTables M → HandleTables M → Prop
  | refl {s : HandleTables M} : Locked s m → LockedRun m s s
  | call (op : Op) {s s' : HandleTables M} : LockedRun m s s' → Locked (endState (op.call s')) m →
    LockedRun m s (endState (op.call s'))
  | guest {s s' s'' : HandleTables M} : LockedRun m s s' → GuestRuns s' s'' → LockedRun m s s''

theorem LockedRun.locked (hr : LockedRun m s s') : Locked s' m := by
  induction hr with
  | refl hl => exact hl
  | call op _ hl _ => exact hl
  | guest _ hg ih =>
    obtain ⟨v, hv, hbit⟩ := ih
    exact ⟨v, by rw [hg.classic, hv], hbit⟩

theorem LockedRun.reachable {heap : Heap M} (hr : LockedRun m s s') (hs : Reachable heap s) :
    Reachable heap s' := by
  induction hr with
  | refl _ => exact hs
  | call op _ _ ih => exact .call op (ih hs)
  | guest _ hg ih => exact .guest (ih hs) hg

/-! ## One operation -/

/-- The handle has the block `p` if it is there. -/
def BlockAt (s : HandleTables M) (m p : Nat) : Prop :=
  ∀ w, s.classic.handles.get? m = some w → w.block = p

theorem blockAt_self (hv : s.classic.handles.get? m = some v) : BlockAt s m v.block :=
  fun w hw => by rw [hv, Option.some.injEq] at hw; rw [hw]

/-- The operations on the state bits move no block. -/
theorem mark_keeps_block {x : EStateM Exc (Handles M) Unit} {master : Int}
    (hx : wp x (fun _ t => (master.toNat : Int) = master ∧
      s.classic.Marked t (cwOwned s.cwHandles) master.toNat)
      (fun e t => e.isHostError = true ∧ t = s.classic) s.classic)
    (hv : s.classic.handles.get? m = some v) :
    wp (onHandles x) (fun _ s' => BlockAt s' m v.block) (fun _ s' => BlockAt s' m v.block) s := by
  rw [onHandles, wp_zoom]
  refine wp_mono hx (fun _ t ht w hw => ?_) fun e t ht => ?_
  · obtain ⟨u, bits, hu, htab⟩ := ht.2.table
    simp only [htab] at hw
    rw [Dict.get?_set] at hw
    split at hw
    · rename_i hm
      rw [← hm, hv, Option.some.injEq] at hu
      rw [← Option.some.inj hw, ← hu]
    · exact blockAt_self hv w hw
  · obtain ⟨-, rfl⟩ := ht
    exact blockAt_self hv

/-- **One operation** leaves the block of a locked handle where it is, or removes the handle. -/
theorem call_keeps_block (hi : Inv s) (op : Op) (hv : s.classic.handles.get? m = some v)
    (hlock : v.stateBits &&& 0x80 ≠ 0) :
    wp op.call (fun _ s' => BlockAt s' m v.block) (fun _ s' => BlockAt s' m v.block) s := by
  -- An operation on another handle leaves the record as it is.
  have hother : ¬ op.onClassic m →
      wp op.call (fun _ s' => BlockAt s' m v.block) (fun _ s' => BlockAt s' m v.block) s :=
    fun hn => wp_mono (call_spec hi op) (fun _ _ h => blockAt_self (h.classic m v hv hn).record)
      fun _ _ h => blockAt_self (h.2.classic m v hv hn).record
  cases op with
  | new size clear => exact hother id
  | allocCwHandle raw requestScoped => exact hother id
  | freeCwHandle handle => exact hother id
  | freeRequestHandles => exact hother id
  | lock master => exact mark_keeps_block (Handles.lock_spec hi.classic master) hv
  | unlock master => exact mark_keeps_block (Handles.unlock_spec hi.classic master) hv
  | setState master state =>
    exact mark_keeps_block (Handles.setState_spec hi.classic master state) hv
  | dispose master =>
    by_cases hm : (m : Int) = master
    · rw [Op.call, onHandles, wp_zoom]
      refine wp_mono (Handles.dispose_spec hi.classic master) (fun _ t ht w hw => ?_)
        fun e t ht => ?_
      · have htab : t.handles = _ := ht.2.table
        simp only [htab] at hw
        rw [show master.toNat = m by omega, Dict.get?_erase_self] at hw
        exact absurd hw (by simp)
      · obtain ⟨-, rfl, -⟩ := ht
        exact blockAt_self hv
    · exact hother hm
  | resize master size =>
    by_cases hm : (m : Int) = master
    · refine wp_discard.mpr ?_
      rw [onHandles, wp_zoom]
      refine wp_mono (Handles.resize_outcome hi.classic master size) (fun p t ht w hw => ?_)
        fun e t ht => ?_
      · obtain ⟨u, hu, htab, hstay, -⟩ := ht.2.1.record
        rw [show master.toNat = m by omega] at hu htab
        rw [hv, Option.some.injEq] at hu
        subst hu
        simp only [htab] at hw
        rw [Dict.get?_set_self, Option.some.injEq] at hw
        rw [← hw]
        exact hstay hlock
      · obtain ⟨-, rfl⟩ := ht
        exact blockAt_self hv
    · exact hother hm

/-! ## Runs -/

/-- The block of a handle that stays locked is at one address. -/
theorem LockedRun.blockAt {heap : Heap M} (hheap : heap.WF) (hs : Reachable heap s)
    (hr : LockedRun m s s') {p : Nat} (hp : BlockAt s m p) : BlockAt s' m p := by
  induction hr with
  | refl _ => exact hp
  | call op hr _ ih =>
    obtain ⟨v, hv, hlock⟩ := hr.locked
    have hb := ih hs hp
    rw [← hb v hv]
    exact wp_endState (call_keeps_block ((hr.reachable hs).inv hheap).1 op hv hlock)
  | guest _ hg ih =>
    intro w hw
    rw [hg.classic] at hw
    exact ih hs hp w hw

/-- **`block`** answers the record's address as long as the guest leaves the master word alone. -/
theorem block_eq (hi : Inv s) (hw : Words s) (hv : s.classic.handles.get? m = some v) :
    Handles.block m s.classic = .ok v.block s.classic := by
  have hmaster := hi.owns.accessible (classic_subset hv List.mem_cons_self)
  rw [hi.classic.keyed m v hv] at hmaster
  have hspec : wp (Handles.block (m : Int)) (fun p t => p = v.block ∧ t = s.classic)
      (fun _ _ => False) s.classic := by
    simp only [Handles.block, Handles.onGuest, Handles.onHeap, Heap.onGuest, Guest.u32, wp_bind]
    refine Handles.getHandle_wp (fun u hu _ => ?_) fun hn => ?_
    · rw [Int.toNat_natCast, hv, Option.some.injEq] at hu
      subst hu
      simp only [wp_zoom, wp_bind, wp_pure, wp_ite, wp_throw, Int.toNat_natCast]
      refine wp_mono (Guest.read_spec hmaster (by decide)) (fun data g hr => ?_)
        fun _ _ h => h
      obtain ⟨rfl, rfl⟩ := hr
      have hword : beNat (ByteMemory.bytes s.classic.heap.guest.uc m 4) = v.block :=
        hw.classic m v hv
      exact ⟨fun hne => hne hword, fun _ => ⟨hword, rfl⟩⟩
    · rw [Dict.find?_natCast, hv] at hn
      exact absurd hn (by simp)
  obtain ⟨p, t, hok, rfl, rfl⟩ := wp_exists_ok hspec
  exact hok

/-- A negative size is refused. -/
theorem resize_nonneg (t : Handles M) (master size : Int) :
    wp (Handles.resize master size) (fun _ _ => 0 ≤ size) (fun _ _ => True) t := by
  rw [Handles.resize, wp_bind, Handles.validateSize, wp_ite, wp_throw, wp_pure]
  refine ⟨fun _ => trivial, fun hpos => ?_⟩
  exact wp_mono (wp_self _ _) (fun _ _ _ => Int.not_lt.mp hpos) fun _ _ _ => trivial

/-- What a successful `resize` of `m` to `size` has done: the handle answers the returned block and
the new size, and the block begins with what the old one began with. -/
structure ResizeKept (s s' : HandleTables M) (m p : Nat) (size : Int) : Prop where
  block : Handles.block m s'.classic = .ok p s'.classic
  newSize : ∃ n, Handles.size m s'.classic = .ok n s'.classic ∧ (n : Int) = size
  contents : ∃ b old, Handles.block m s.classic = .ok b s.classic ∧
    Handles.size m s.classic = .ok old s.classic ∧
    ByteMemory.bytes s'.heap.guest.uc p (min old size.toNat) =
      ByteMemory.bytes s.heap.guest.uc b (min old size.toNat)

theorem size_eq (hv : s.classic.handles.get? m = some v) :
    Handles.size m s.classic = .ok v.requestedSize s.classic := by
  have hget : Handles.getHandle m s.classic = .ok v s.classic := by
    rw [Handles.getHandle, bind_of_ok (get_eq _), Dict.find?_natCast, hv]
    rfl
  rw [Handles.size, bind_of_ok hget]
  rfl

theorem resize_kept (hi : Inv s) (hw : Words s) (m : Nat) (size : Int) :
    wp (onHandles (Handles.resize m size)) (fun p s' => ResizeKept s s' m p size)
      (fun e s' => e.isHostError = true ∧ s' = s) s := by
  rw [onHandles, wp_zoom]
  refine wp_mono (wp_and (Handles.resize_outcome hi.classic m size)
    (resize_nonneg s.classic m size)) (fun p t ht => ?_) fun e t ht => ⟨ht.1.1, by rw [ht.1.2]⟩
  obtain ⟨⟨⟨hm, hres⟩, hkept, -⟩, hpos⟩ := ht
  obtain ⟨v, hv, htab, -, hbytes⟩ := hkept.record
  have hstep := resize_stepped hi hres hm
  have hv' : t.handles.get? m = some { v with block := p, requestedSize := size.toNat } := by
    rw [htab, Int.toNat_natCast, Dict.get?_set_self]
  rw [Int.toNat_natCast] at hv
  exact ⟨block_eq hstep.inv (hstep.words hw) hv', ⟨_, size_eq hv', Int.toNat_of_nonneg hpos⟩,
    _, _, block_eq hi hw hv, size_eq hv, hbytes⟩

/-- **Locked handles do not move and resizing keeps contents**, over every interleaving of
operations, each succeeding or raising, and of guest code that leaves the handles' words alone. -/
theorem locked_stays {base size : Int} {g g' : Guest M} {heap : Heap M}
    (hinit : Heap.init base size g = .ok heap g') {s : HandleTables M} (hs : Reachable heap s)
    (m : Nat) :
    (∀ s', LockedRun m s s' → ∃ p, Handles.block m s.classic = .ok p s.classic ∧
      Handles.block m s'.classic = .ok p s'.classic) ∧
    ∀ newSize : Int, wp (onHandles (Handles.resize m newSize))
      (fun p s' => ResizeKept s s' m p newSize)
      (fun e s' => e.isHostError = true ∧ s' = s) s := by
  obtain ⟨hheap, -⟩ := wp_of_ok (Heap.init_spec base size g) hinit
  obtain ⟨hi, hw⟩ := hs.inv hheap
  refine ⟨fun s' hr => ?_, resize_kept hi hw m⟩
  obtain ⟨hi', hw'⟩ := (hr.reachable hs).inv hheap
  obtain ⟨w, hw₁, -⟩ := hr.locked
  have hstart : ∃ v, s.classic.handles.get? m = some v := by
    clear hi' hw' hw₁
    induction hr with
    | refl hl => exact ⟨hl.choose, hl.choose_spec.1⟩
    | call _ _ _ ih => exact ih hs hi hw
    | guest _ _ ih => exact ih hs hi hw
  obtain ⟨v, hv⟩ := hstart
  have hb : w.block = v.block := hr.blockAt hheap hs (blockAt_self hv) w hw₁
  exact ⟨v.block, block_eq hi hw hv, hb ▸ block_eq hi' hw' hw₁⟩

/-- A locked handle of five bytes. -/
def oneLocked (heap : Heap .flat) : HandleTables .flat :=
  endState (Op.call (.lock 0x2008) (endState (Op.call (.new 5 false) (new heap))))

/-- Another handle of eight bytes is made, and the locked one is cut to three. -/
def lockedLater (heap : Heap .flat) : HandleTables .flat :=
  endState (Op.call (.resize 0x2008 3) (endState (Op.call (.new 8 false) (oneLocked heap))))

theorem lockedLater_run :
    ∃ (heap : Heap .flat) (g : Guest .flat),
      Heap.init 0x2000 256 ⟨ByteMemory.blank⟩ = .ok heap g ∧
      LockedRun 0x2008 (oneLocked heap) (lockedLater heap) ∧
      (∃ p s', onHandles (Handles.resize (0x2008 : Nat) 4) (lockedLater heap) = .ok p s') ∧
      ∃ p s', onHandles (Handles.resize (0x200C : Nat) 40) (lockedLater heap) = .ok p s' :=
  ⟨_, _, rfl, .call _ (.call _ (.refl ⟨_, rfl, by decide⟩) ⟨_, rfl, by decide⟩)
    ⟨_, rfl, by decide⟩, ⟨_, _, rfl⟩, ⟨_, _, rfl⟩⟩

/-- The locked handle stays where it is, and both can be resized. -/
theorem locked_stays_flat :
    ∃ (heap : Heap .flat) (g : Guest .flat),
      Heap.init 0x2000 256 ⟨ByteMemory.blank⟩ = .ok heap g ∧
      LockedRun 0x2008 (oneLocked heap) (lockedLater heap) ∧
      (∃ p, Handles.block (0x2008 : Nat) (oneLocked heap).classic = .ok p (oneLocked heap).classic ∧
        Handles.block (0x2008 : Nat) (lockedLater heap).classic = .ok p (lockedLater heap).classic) ∧
      (∃ p s', onHandles (Handles.resize (0x2008 : Nat) 4) (lockedLater heap) = .ok p s' ∧
        ResizeKept (lockedLater heap) s' 0x2008 p 4) ∧
      ∃ p s', onHandles (Handles.resize (0x200C : Nat) 40) (lockedLater heap) = .ok p s' ∧
        ResizeKept (lockedLater heap) s' 0x200C p 40 := by
  obtain ⟨heap, g, hi, hr, ⟨p, s, hfirst⟩, ⟨q, t, hsecond⟩⟩ := lockedLater_run
  have hs : Reachable heap (oneLocked heap) := .call _ (.call _ .new)
  have hs' := hr.reachable hs
  have hlocked := (locked_stays hi hs' 0x2008).2 4
  have hother := (locked_stays hi hs' 0x200C).2 40
  have hcut := wp_of_ok hlocked hfirst
  have hgrown := wp_of_ok hother hsecond
  exact ⟨heap, g, hi, hr, (locked_stays hi hs 0x2008).1 _ hr, ⟨p, s, hfirst, hcut⟩, q, t, hsecond,
    hgrown⟩

end Cwhost.HandleTables
