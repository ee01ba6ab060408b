import Cwhost.Session.Ownership

/-!
# Failed creations and leaked blocks

`Handles.new` and `_alloc_cw_handle` allocate twice. Neither gives the first allocation back when
the second one raises, and no handle ever owns it.

* `new_keeps_iff`, `alloc_keeps_iff`: a failed creation changes nothing exactly when it is not the
  second allocation alone that does not fit.
* `call_exact`, `Run.exact`: as long as no creation leaks, every live allocation belongs to a
  live handle.
-/

namespace Cwhost.HandleTables

open Lib

variable {M : ByteMemory} {s s' : HandleTables M}

/-- The tables reached from a new session by operations that `allowed` lets through, each
succeeding or raising, with any change to the contents of guest memory in between. -/
inductive Run (allowed : Op → HandleTables M → Prop) (heap : Heap M) : HandleTables M → Prop
  | new : Run allowed heap (new heap)
  | call (op : Op) {s : HandleTables M} : Run allowed heap s → allowed op s →
    Run allowed heap (endState (op.call s))
  | memory (g : Guest M) {s : HandleTables M} : Run allowed heap s →
    (∀ x, M.mapped g.uc x ↔ M.mapped s.heap.guest.uc x) →
    Run allowed heap (s.withHeap { s.heap with guest := g })

/-- The operation is a creation whose first allocation fits and whose second one then does not. -/
def Op.Leaks (s : HandleTables M) : Op → Prop
  | .new size _ => s.classic.NewLeaks size
  | .allocCwHandle raw _ => CwLeaks s raw
  | .dispose _ | .resize .. | .lock _ | .unlock _ | .setState .. | .freeCwHandle _
  | .freeRequestHandles => False

/-- Every operation. -/
def anyOp (_ : Op) (_ : HandleTables M) : Prop := True

/-- Every operation but a leaking creation. -/
def leakless (op : Op) (s : HandleTables M) : Prop := ¬ op.Leaks s

theorem Run.inv {allowed : Op → HandleTables M → Prop} {heap : Heap M} (hheap : heap.WF)
    (hr : Run allowed heap s) : Inv s := by
  induction hr with
  | new => exact new_inv hheap
  | call op _ _ ih =>
    exact (wp_endState (wp_mono (call_spec ih op) (fun _ _ h => h) fun _ _ h => h.2)).inv
  | memory g _ hm ih => exact ⟨⟨ih.owns.withGuest hm, ih.classic.keyed⟩, ih.cwKeyed⟩

/-! ## A creation that fails -/

theorem allocated_ne {h h' : Heap M} (hw : h.WF) {a n : Nat} (hn : 0 < n)
    (ha : Heap.Allocated h h' a n) : h' ≠ h := by
  rintro rfl
  have hnone := ha.get?_eq_none hw hn
  rw [ha.table, Dict.get?_set_self] at hnone
  exact absurd hnone (by simp)

/-- **A failed `new` changes nothing** exactly when it does not fail at the master pointer. -/
theorem new_keeps_iff (hi : Inv s) (size : Int) (clear : Bool) :
    (∀ e t, Handles.new size clear s.classic = .error e t → t = s.classic) ↔
      ¬ s.classic.NewLeaks size := by
  have hspec := Handles.new_outcome hi.classic size clear
  constructor
  · intro hkeep hleak
    cases hrun : Handles.new size clear s.classic with
    | ok m t => exact (wp_of_ok hspec hrun).2.1 hleak
    | error e t =>
      rcases (wp_of_error hspec hrun).2 with ⟨-, hn⟩ | ⟨-, b, h₁, ha, ht⟩
      · exact hn hleak
      · refine allocated_ne hi.owns.wf (by omega) ha ?_
        rw [hkeep e t hrun] at ht
        exact (congrArg Handles.heap ht).symm
  · intro hn e t hrun
    rcases (wp_of_error hspec hrun).2 with ⟨ht, -⟩ | ⟨hleak, -⟩
    · exact ht
    · exact absurd hleak hn

/-- **A failed `_alloc_cw_handle` changes nothing** exactly when it does not fail at the block. -/
theorem alloc_keeps_iff (hi : Inv s) (raw : List UInt8) (requestScoped : Bool) :
    (∀ e s', allocCwHandle raw requestScoped s = .error e s' → s' = s) ↔ ¬ CwLeaks s raw := by
  have hspec := allocCwHandle_outcome hi raw requestScoped
  constructor
  · intro hkeep hleak
    cases hrun : allocCwHandle raw requestScoped s with
    | ok a s' => exact (wp_of_ok hspec hrun).2.1 hleak
    | error e s' =>
      rcases (wp_of_error hspec hrun).2 with ⟨-, hn⟩ | ⟨-, a, h₁, ha, hs'⟩
      · exact hn hleak
      · refine allocated_ne hi.owns.wf (by decide) ha ?_
        rw [hkeep e s' hrun] at hs'
        exact (congrArg HandleTables.heap hs').symm
  · intro hn e s' hrun
    rcases (wp_of_error hspec hrun).2 with ⟨hs', -⟩ | ⟨hleak, -⟩
    · exact hs'
    · exact absurd hleak hn

/-- A creation that succeeds has leaked nothing. -/
theorem not_leaks_of_new (hi : Inv s) {size : Int} {clear : Bool} {m : Nat} {t : Handles M}
    (hok : Handles.new size clear s.classic = .ok m t) : ¬ (Op.new size clear).Leaks s :=
  (wp_of_ok (Handles.new_outcome hi.classic size clear) hok).2.1

theorem not_leaks_of_alloc (hi : Inv s) {raw : List UInt8} {requestScoped : Bool} {a : Nat}
    (hok : allocCwHandle raw requestScoped s = .ok a s') :
    ¬ (Op.allocCwHandle raw requestScoped).Leaks s :=
  (wp_of_ok (allocCwHandle_outcome hi raw requestScoped) hok).2.1

/-! ## A run without leaks -/

/-- The loop of `_free_request_handles` leaks nothing. -/
theorem freeScoped_exact (l : List (Nat × CWMemHandle)) {s : HandleTables M} (hi : Inv s)
    (hx : Exact s) : wp (freeScoped l) (fun _ s' => Exact s') (fun _ s' => Exact s') s := by
  induction l generalizing s with
  | nil => exact hx
  | cons e l ih =>
    obtain ⟨a, c⟩ := e
    rw [freeScoped, wp_ite, wp_bind]
    refine ⟨fun _ => ?_, fun _ => ih hi hx⟩
    refine wp_mono (freeCwHandle_outcome hi (a : Int)) (fun _ s₁ h₁ => ?_) fun e s₁ h₁ => ?_
    · exact ih h₁.1.2.inv (h₁.2 hx)
    · obtain ⟨-, rfl, -⟩ := h₁
      exact hx

/-- An operation on the classic handles that keeps exactness there. -/
theorem onHandles_exact {α : Type} {x : EStateM Exc (Handles M) α}
    (hx : wp x (fun _ t => t.Exact (cwOwned s.cwHandles)) (fun _ t => t.Exact (cwOwned s.cwHandles))
      s.classic) : wp (onHandles x) (fun _ s' => Exact s') (fun _ s' => Exact s') s := by
  rw [onHandles, wp_zoom]
  exact wp_mono hx (fun _ _ h => h) fun _ _ h => h

theorem mark_exact (hx : Exact s) {x : EStateM Exc (Handles M) Unit} {master : Int}
    (hm : wp x (fun _ t => (master.toNat : Int) = master ∧
      s.classic.Marked t (cwOwned s.cwHandles) master.toNat)
      (fun e t => e.isHostError = true ∧ t = s.classic) s.classic) :
    wp (onHandles x) (fun _ s' => Exact s') (fun _ s' => Exact s') s :=
  onHandles_exact (wp_mono hm (fun _ _ h => h.2.exact hx) fun _ _ h => by rw [h.2]; exact hx)

/-- **One operation** that does not leak keeps every live allocation with a live handle. -/
theorem call_exact (hi : Inv s) (hx : Exact s) (op : Op) (hn : ¬ op.Leaks s) :
    wp op.call (fun _ s' => Exact s') (fun _ s' => Exact s') s := by
  cases op with
  | new size clear =>
    refine wp_discard.mpr (onHandles_exact (wp_mono (Handles.new_outcome hi.classic size clear)
      (fun _ _ h => h.2.2 hx) fun e t ht => ?_))
    rcases ht.2 with ⟨rfl, -⟩ | ⟨hleak, -⟩
    · exact hx
    · exact absurd hleak hn
  | dispose master =>
    refine onHandles_exact (wp_mono (Handles.dispose_outcome hi.classic master)
      (fun _ _ h => h.2 hx) fun e t ht => ?_)
    rw [ht.2.1]
    exact hx
  | resize master size =>
    refine wp_discard.mpr (onHandles_exact (wp_mono (Handles.resize_outcome hi.classic master size)
      (fun _ _ h => h.2.2 hx) fun e t ht => ?_))
    rw [ht.2]
    exact hx
  | lock master => exact mark_exact hx (Handles.lock_spec hi.classic master)
  | unlock master => exact mark_exact hx (Handles.unlock_spec hi.classic master)
  | setState master state => exact mark_exact hx (Handles.setState_spec hi.classic master state)
  | allocCwHandle raw requestScoped =>
    refine wp_discard.mpr (wp_mono (allocCwHandle_outcome hi raw requestScoped)
      (fun _ _ h => h.2.2 hx) fun e s' hs' => ?_)
    rcases hs'.2 with ⟨rfl, -⟩ | ⟨hleak, -⟩
    · exact hx
    · exact absurd hleak hn
  | freeCwHandle handle =>
    refine wp_mono (freeCwHandle_outcome hi handle) (fun _ _ h => h.2 hx) fun e s' hs' => ?_
    rw [hs'.2.1]
    exact hx
  | freeRequestHandles =>
    rw [Op.call, freeRequestHandles, wp_bind, wp_get]
    exact freeScoped_exact _ hi hx

/-- **A run without leaking creations** leaves no live allocation outside the handles. -/
theorem Run.exact {heap : Heap M} (hheap : heap.WF) (hempty : heap.allocations = .empty)
    (hr : Run leakless heap s) : Exact s := by
  induction hr with
  | new =>
    intro r hr
    have hnone : heap.allocations.get? r.1 = some r.2 := hr
    rw [hempty, Dict.get?_empty] at hnone
    exact absurd hnone (by simp)
  | call op hr hn ih => exact wp_endState (call_exact (hr.inv hheap) ih op hn)
  | memory g _ _ ih => exact Heap.Exact.of_table_eq ih rfl

/-- Every live heap allocation belongs to a live handle. -/
def AllOwned (s : HandleTables M) : Prop :=
  ∀ a n, s.heap.allocations.get? a = some n →
    (∃ m v, s.classic.handles.get? m = some v ∧ (a, n) ∈ v.owned) ∨
      ∃ b c, s.cwHandles.get? b = some c ∧ (a, n) ∈ c.owned

theorem mem_collect {ν : Type} {d : Dict Nat ν} {f : ν → List Range} {r : Range}
    (hr : r ∈ d.collect f) : ∃ k v, d.get? k = some v ∧ r ∈ f v := by
  obtain ⟨v, hv, hr⟩ := List.mem_flatMap.mp hr
  obtain ⟨e, he, rfl⟩ := List.mem_map.mp hv
  exact ⟨e.1, e.2, Dict.get?_eq_some_iff.mpr he, hr⟩

theorem Exact.allOwned (hx : Exact s) : AllOwned s := fun a n ha => by
  rcases List.mem_append.mp (hx (a, n) ha) with h | h
  · exact Or.inl (mem_collect h)
  · exact Or.inr (mem_collect h)

/-- **Failed creations leak the first of their two allocations**: in every reachable state a
failed creation changes nothing exactly when it is not the second allocation alone that does not
fit, and in every run whose creations are of that kind every live heap allocation belongs to a
live handle. -/
theorem creation_leaks_iff {base size : Int} {g g' : Guest M} {heap : Heap M}
    (hinit : Heap.init base size g = .ok heap g') :
    (∀ s, Run anyOp heap s →
      (∀ size clear, (∀ e t, Handles.new size clear s.classic = .error e t → t = s.classic) ↔
        ¬ s.classic.NewLeaks size) ∧
      ∀ raw requestScoped,
        (∀ e s', allocCwHandle raw requestScoped s = .error e s' → s' = s) ↔ ¬ CwLeaks s raw) ∧
    ∀ s, Run leakless heap s → AllOwned s := by
  obtain ⟨hheap, -, -, -, hempty⟩ := wp_of_ok (Heap.init_spec base size g) hinit
  exact ⟨fun s hr => ⟨new_keeps_iff (hr.inv hheap), alloc_keeps_iff (hr.inv hheap)⟩,
    fun s hr => (hr.exact hheap hempty).allOwned⟩

theorem creation_leaks_iff_flat :
    ∃ (heap : Heap .flat) (g : Guest .flat),
      Heap.init 0x2000 64 ⟨ByteMemory.blank⟩ = .ok heap g ∧
      ∀ s, Run leakless heap s → AllOwned s := by
  obtain ⟨heap, g, hi⟩ : ∃ (heap : Heap .flat) (g : Guest .flat),
      Heap.init 0x2000 64 ⟨ByteMemory.blank⟩ = .ok heap g := ⟨_, _, rfl⟩
  exact ⟨heap, g, hi, (creation_leaks_iff hi).2⟩

/-- In a new session, a handle of the size of the whole heap fails and keeps the heap. -/
theorem new_whole_heap_leaks :
    ∃ (heap : Heap .flat) (g : Guest .flat) (e : Exc) (t : Handles .flat),
      Heap.init 0x30000000 0x10000000 ⟨ByteMemory.blank⟩ = .ok heap g ∧
      Handles.new 0x10000000 false (new heap).classic = .error e t ∧ e.isHostError = true ∧
      (new heap).heap.allocations.get? 0x30000000 = none ∧
      t.heap.allocations.get? 0x30000000 = some 0x10000000 ∧ t.handles.items = [] :=
  ⟨_, _, _, _, rfl, rfl, rfl, rfl, rfl, rfl⟩

end Cwhost.HandleTables
