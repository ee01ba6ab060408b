import Cwhost.Carbon.System
import Cwhost.Guest.Args
import Cwhost.Guest.Machine
import Cwhost.Lib.BlockStore
import Cwhost.Session.Leaks

/-!
# The Memory Manager (`carbon/memory_mgr.py`)

The shims take their arguments from the registers and work on the handles of the session. The
plug-in sees a handle as the address of a word that holds the address of a block, which any later
call may move; it reads and writes the block through the word.

* `newHandle`, …, `tempFreeMem`: the shims. `Act`: a call of one, an operation on the
  `CWMemHandle`s of the same heap, a store through a handle, or a store elsewhere.
* `view`: the byte string each handle stands for.
* `Act.spec`: **each act is a step of a store of byte strings**; `run_refines`: so is each run, and
  what the guest reads through a handle is its string.
* `run_lastStored`: a byte stays what was stored last, however often its block has moved.
* `tempFreeMem_exact`: what is reported free is all that the live handles do not take.

Premises (`Act.Legal`): a store through a handle stays within its size; any other store, and the
result code of `TempNewHandle`, keeps off the words and blocks of the handles and the records of the
`CWMemHandle`s.

Out of scope: a guest that keeps a block's address across a call that moves it and stores there.
-/

namespace Cwhost.Carbon

open Lib

variable {M : ByteMemory}

/-! ## The shims -/

/-- A shim of the Memory Manager. -/
abbrev MemoryM (M : ByteMemory) := EStateM Exc (HandleTables M)

/-- `_args` of one type. -/
def oneArg (regs : Regs) (t : ArgType) : MemoryM M Int := do
  match ← HandleTables.onGuest (Guest.args regs [t.name]) with
  | [.int value] => return value
  | _ => throw .valueError

/-- `_args` of two types. -/
def twoArgs (regs : Regs) (t t' : ArgType) : MemoryM M (Int × Int) := do
  match ← HandleTables.onGuest (Guest.args regs [t.name, t'.name]) with
  | [.int value, .int value'] => return (value, value')
  | _ => throw .valueError

/-- `NewHandle`. -/
def newHandle (regs : Regs) : MemoryM M Returned := do
  let size ← oneArg regs .u32
  let handle ← HandleTables.onHandles (Handles.new size false)
  return ret handle

/-- `TempNewHandle`. -/
def tempNewHandle (regs : Regs) : MemoryM M Returned := do
  let (size, resultCode) ← twoArgs regs .u32 .ptr
  let handle ← HandleTables.onHandles (Handles.new size false)
  if resultCode ≠ 0 then
    HandleTables.onGuest (Guest.w16 resultCode.toNat 0)
  return ret handle

/-- A shim that does something to the handle it is given. -/
def onHandle (x : Int → EStateM Exc (Handles M) Unit) (regs : Regs) : MemoryM M Returned := do
  let handle ← oneArg regs .ptr
  HandleTables.onHandles (x handle)
  return ret 0

/-- `DisposeHandle`. -/
def disposeHandle (regs : Regs) : MemoryM M Returned := onHandle Handles.dispose regs

/-- `HLock`. -/
def hLock (regs : Regs) : MemoryM M Returned := onHandle Handles.lock regs

/-- `HLockHi`. -/
def hLockHi (regs : Regs) : MemoryM M Returned := onHandle Handles.lock regs

/-- `HUnlock`. -/
def hUnlock (regs : Regs) : MemoryM M Returned := onHandle Handles.unlock regs

/-- `SetHandleSize`. -/
def setHandleSize (regs : Regs) : MemoryM M Returned := do
  let (handle, size) ← twoArgs regs .ptr .u32
  let _ ← HandleTables.onHandles (Handles.resize handle size)
  return ret 0

/-- `TempFreeMem`. -/
def tempFreeMem : MemoryM M Returned := do
  let s ← get
  return ret s.heap.freeBytes

/-! ## What can happen -/

/-- A call of a shim with the registers it finds, an operation of the plug-in's callbacks on the
`CWMemHandle`s, or a store of the guest. -/
inductive Act
  | newHandle (regs : Regs)
  | tempNewHandle (regs : Regs)
  | disposeHandle (regs : Regs)
  | setHandleSize (regs : Regs)
  | hLock (regs : Regs)
  | hLockHi (regs : Regs)
  | hUnlock (regs : Regs)
  | tempFreeMem
  | allocCwHandle (raw : List UInt8) (requestScoped : Bool)
  | freeCwHandle (handle : Int)
  | freeRequestHandles
  /-- A store at an offset of the block of a handle. -/
  | store (handle offset : Nat) (data : List UInt8)
  /-- Any other store. -/
  | write (addr : Nat) (data : List UInt8)

/-- A store of the guest: through the word of the handle. -/
def storeThrough (handle offset : Nat) (data : List UInt8) : EStateM Exc (Guest M) Unit := do
  let pointer ← Guest.u32 handle
  Guest.write (pointer + offset) data

/-- A load of the guest, through the word of the handle. -/
def loadThrough (handle offset n : Nat) : EStateM Exc (Guest M) (List UInt8) := do
  let pointer ← Guest.u32 handle
  Guest.read (pointer + offset) n

/-- The act itself. -/
def Act.run : Act → MemoryM M Returned
  | .newHandle regs => Carbon.newHandle regs
  | .tempNewHandle regs => Carbon.tempNewHandle regs
  | .disposeHandle regs => Carbon.disposeHandle regs
  | .setHandleSize regs => Carbon.setHandleSize regs
  | .hLock regs => Carbon.hLock regs
  | .hLockHi regs => Carbon.hLockHi regs
  | .hUnlock regs => Carbon.hUnlock regs
  | .tempFreeMem => Carbon.tempFreeMem
  | .allocCwHandle raw requestScoped => do
    let handle ← HandleTables.allocCwHandle raw requestScoped
    return ret handle
  | .freeCwHandle handle => do
    HandleTables.freeCwHandle handle
    return ret 0
  | .freeRequestHandles => do
    HandleTables.freeRequestHandles
    return ret 0
  | .store handle offset data => do
    HandleTables.onGuest (storeThrough handle offset data)
    return ret 0
  | .write addr data => do
    HandleTables.onGuest (Guest.write addr data)
    return ret 0

/-- What the act asks of the store of byte strings, if it is about that. -/
def Act.request : Act → Option (BlockStore.Request Nat)
  | .newHandle regs | .tempNewHandle regs => some (.create regs.first)
  | .disposeHandle regs => some (.dispose regs.first)
  | .setHandleSize regs => some (.resize regs.first regs.second)
  | .hLock regs | .hLockHi regs => some (.lock regs.first true)
  | .hUnlock regs => some (.lock regs.first false)
  | .store handle offset data => some (.store handle offset data)
  | .tempFreeMem | .allocCwHandle .. | .freeCwHandle _ | .freeRequestHandles | .write .. => none

/-- The key it is about: the handle given, or the one returned. -/
def Act.key : Act → Returned → Nat
  | .disposeHandle regs, _ | .setHandleSize regs, _ | .hLock regs, _ | .hLockHi regs, _
  | .hUnlock regs, _ => regs.first
  | .store handle _ _, _ => handle
  | .newHandle _, r | .tempNewHandle _, r | .tempFreeMem, r | .allocCwHandle .., r
  | .freeCwHandle _, r | .freeRequestHandles, r | .write .., r => r.r3

/-- The request of an act, with its answer. -/
def Act.events (a : Act) (s : HandleTables M) : List (BlockStore.Event Nat) :=
  (a.request.map fun request => (request, (okValue (a.run s)).map a.key)).toList

/-! ## The strings behind the handles -/

/-- The string of a handle. -/
def blockOf (g : Guest M) (v : Handle) : Block where
  contents := ByteMemory.bytes g.uc v.block v.requestedSize
  locked := decide (v.stateBits &&& 0x80 ≠ 0)

/-- **What each handle stands for.** -/
def view (s : HandleTables M) : BlockStore Nat := fun m =>
  (s.classic.handles.get? m).map (blockOf s.heap.guest)

/-- The bytes are not in a word or a block of a handle, nor in the record of a `CWMemHandle`. -/
def Outside (s : HandleTables M) (addr n : Nat) : Prop :=
  ∀ x, Has (addr, n) x →
    (∀ m v, s.classic.handles.get? m = some v → ¬ Covers v.owned x) ∧
    ∀ a c, s.cwHandles.get? a = some c → ¬ Has (a, 8) x

/-- What is asked of the guest: it stores inside the block when it stores through a handle, and
outside the words and blocks of the handles otherwise. -/
def Act.Legal (s : HandleTables M) : Act → Prop
  | .store handle offset data =>
    ∃ b, view s handle = some b ∧ offset + data.length ≤ b.contents.length
  | .write addr data => Outside s (addr % 2 ^ 32) data.length
  | .tempNewHandle regs => ∀ handle s',
    HandleTables.onHandles (Handles.new regs.first false) s = .ok handle s' →
      regs.second = 0 ∨ Outside s' regs.second 2 ∧
        ByteMemory.MappedRange s'.heap.guest.uc regs.second 2
  | _ => True

/-- The states reached from a state by acts, each returning or raising, with the requests they make
of the store. -/
inductive Acted (s₀ : HandleTables M) : List (BlockStore.Event Nat) → HandleTables M → Prop
  | refl : Acted s₀ [] s₀
  | act (a : Act) {events : List (BlockStore.Event Nat)} {s : HandleTables M}
    (reached : Acted s₀ events s) (legal : a.Legal s) :
    Acted s₀ (events ++ a.events s) (endState (a.run s))

/-! ## Views after a change -/

section Views

variable {s s' : HandleTables M} {m : Nat}

theorem view_of_get? {v : Handle} (hv : s.classic.handles.get? m = some v) :
    view s m = some (blockOf s.heap.guest v) := by
  rw [view, hv]
  rfl

theorem view_eq_none (h : s.classic.handles.get? m = none) : view s m = none := by
  rw [view, h]
  rfl

theorem find?_toNat {r : BitVec 32} (h : s.classic.handles.find? r.toNat = none) :
    view s r.toNat = none :=
  view_eq_none ((Dict.find?_natCast _ _).symm.trans h)

/-- A change that concerns the handle `m` alone. -/
theorem view_update (htab : ∀ q, q ≠ m → s'.classic.handles.get? q = s.classic.handles.get? q)
    (hsame : ∀ q v, q ≠ m → s.classic.handles.get? q = some v →
      ByteMemory.bytes s'.heap.guest.uc v.block v.requestedSize =
        ByteMemory.bytes s.heap.guest.uc v.block v.requestedSize) :
    view s' = Function.update (view s) m (view s' m) := by
  funext q
  by_cases hq : q = m
  · rw [hq, Function.update_self]
  · rw [Function.update_of_ne hq, view, view, htab q hq]
    cases hv : s.classic.handles.get? q with
    | none => rfl
    | some v => exact congrArg some (by rw [blockOf, blockOf, hsame q v hq hv])

/-- An operation on the handle `m` alone. -/
theorem view_of_stepped {op : HandleTables.Op} (hst : HandleTables.Stepped op s s')
    (hon : ∀ q, op.onClassic q → q = m)
    (htab : ∀ q, q ≠ m → s'.classic.handles.get? q = s.classic.handles.get? q) :
    view s' = Function.update (view s) m (view s' m) :=
  view_update htab fun q v hq hv => (hst.classic q v hv fun h => hq (hon q h)).contents

/-- A change that concerns no handle. -/
theorem view_eq (htab : s'.classic.handles = s.classic.handles)
    (hsame : ∀ q v, s.classic.handles.get? q = some v →
      ByteMemory.bytes s'.heap.guest.uc v.block v.requestedSize =
        ByteMemory.bytes s.heap.guest.uc v.block v.requestedSize) : view s' = view s := by
  funext q
  rw [view, view, htab]
  cases hv : s.classic.handles.get? q with
  | none => rfl
  | some v => exact congrArg some (by rw [blockOf, blockOf, hsame q v hv])

end Views

/-! ## One act -/

/-- The tables own their blocks and the words of the handles are right. -/
structure Good (s : HandleTables M) : Prop where
  inv : HandleTables.Inv s
  words : HandleTables.Words s

/-- What the store has done, if it was asked something. -/
def Took (s s' : HandleTables M) : Option (BlockStore.Event Nat) → Prop
  | some event => BlockStore.Step (view s) event (view s')
  | none => view s' = view s

/-- **The act is a step of the store**, whether it returns or raises. -/
def Refines (a : Act) (s : HandleTables M) : Prop :=
  wp a.run
    (fun r s' => Good s' ∧ Took s s' (a.request.map fun request => (request, some (a.key r))))
    (fun _ s' => Good s' ∧ Took s s' (a.request.map fun request => (request, none))) s

section Acts

variable {s : HandleTables M}

theorem Good.stepped {s' : HandleTables M} {op : HandleTables.Op} (h : Good s)
    (hst : HandleTables.Stepped op s s') : Good s' := ⟨hst.inv, hst.words h.words⟩

/-- The tables with other classic handles. -/
def withClassic (s : HandleTables M) (t : Handles M) : HandleTables M := { s with classic := t }

theorem wp_onHandles {α : Type} {x : EStateM Exc (Handles M) α}
    {Q : α → HandleTables M → Prop} {E : Exc → HandleTables M → Prop} :
    wp (HandleTables.onHandles x) Q E s ↔
      wp x (fun a t => Q a (withClassic s t)) (fun e t => E e (withClassic s t)) s.classic :=
  wp_zoom

/-- A new handle, a fresh key of the store. -/
theorem new_refines (h : Good s) (size : Nat) :
    wp (HandleTables.onHandles (Handles.new size false))
      (fun m s' => Good s' ∧ (m : Int) % 2 ^ 32 = m ∧
        BlockStore.Step (view s) (.create size, some m) (view s'))
      (fun _ s' => Good s' ∧ BlockStore.Step (view s) (.create size, none) (view s')) s := by
  rw [wp_onHandles]
  refine wp_mono (Handles.new_spec h.inv.classic size false) (fun m t hc => ?_) fun e t he => ?_
  · have hst : HandleTables.Stepped (.new size false) s (withClassic s t) :=
      HandleTables.new_stepped h.inv hc
    obtain ⟨b, htab, -⟩ := hc.table
    rw [Int.toNat_natCast] at htab
    have hself : t.handles.get? m = some ⟨m, b, size, 0⟩ := by
      rw [htab, Dict.get?_set_self]
    have hmod : m % 2 ^ 32 = m := hst.inv.owns.mod_eq
      (HandleTables.classic_subset (s := withClassic s t) hself List.mem_cons_self)
    refine ⟨h.stepped hst, mod_cast hmod, ?_⟩
    rw [view_of_stepped (m := m) hst (fun _ h => h.elim) fun q hq => by
      show t.handles.get? q = _
      rw [htab, Dict.get?_set_of_ne _ _ hq]]
    rw [view_of_get? (s := withClassic s t) hself]
    have hblock : blockOf t.heap.guest ⟨m, b, size, 0⟩ =
        ⟨ByteMemory.bytes t.heap.guest.uc b size, false⟩ := by
      simp [blockOf]
    show BlockStore.Step _ _ (Function.update _ m (some (blockOf t.heap.guest _)))
    rw [hblock]
    exact .create (view_eq_none hc.fresh) (ByteMemory.bytes_length _ _ _)
  · obtain ⟨-, hu⟩ := he
    have hu' : HandleTables.Unchanged s (withClassic s t) :=
      ⟨⟨hu.inv, h.inv.cwKeyed⟩, hu.table, rfl, hu.keeps⟩
    have hst := hu'.stepped h.inv (.new size false)
    refine ⟨h.stepped hst, ?_⟩
    have hview : view (withClassic s t) = view s :=
      view_eq hu.table fun q v hv => (hst.classic q v hv id).contents
    exact hview ▸ .full

/-- One word is in `r3`. -/
theorem wp_oneArg {regs : Regs} {t : ArgType} (ht : t = .u32 ∨ t = .ptr)
    {Q : Int → HandleTables M → Prop} {E : Exc → HandleTables M → Prop} :
    wp (oneArg regs t) Q E s ↔ Q (regs.gpr 3).toNat s := by
  rcases ht with rfl | rfl <;> rfl

/-- Two words are in `r3` and `r4`. -/
theorem wp_twoArgs {regs : Regs} {t t' : ArgType} (ht : t = .u32 ∨ t = .ptr)
    (ht' : t' = .u32 ∨ t' = .ptr) {Q : Int × Int → HandleTables M → Prop}
    {E : Exc → HandleTables M → Prop} :
    wp (twoArgs regs t t') Q E s ↔ Q ((regs.gpr 3).toNat, (regs.gpr 4).toNat) s := by
  rcases ht with rfl | rfl <;> rcases ht' with rfl | rfl <;> rfl

/-- What a shim returns in `r3` for a handle. -/
theorem ret_r3 {m : Nat} (hm : (m : Int) % 2 ^ 32 = m) : (ret m).r3 = m := by
  show ((m : Int) % 2 ^ 32).toNat = m
  rw [hm, Int.toNat_natCast]

theorem newHandle_refines (h : Good s) (regs : Regs) : Refines (.newHandle regs) s := by
  show wp (newHandle regs) _ _ s
  rw [newHandle, wp_bind, wp_oneArg (Or.inl rfl), wp_bind]
  refine wp_mono (new_refines h (regs.gpr 3).toNat) (fun m s' hm => ⟨hm.1, ?_⟩) fun _ _ he => he
  show BlockStore.Step _ (_, some (ret m).r3) _
  rw [ret_r3 hm.2.1]
  exact hm.2.2

/-- What begins by looking up a handle returns for a handle that is there only. -/
theorem getHandle_held {t : Handles M} {β : Type} (m : Nat)
    (f : Handle → EStateM Exc (Handles M) β) :
    wp (Handles.getHandle m >>= f) (fun _ _ => ∃ v, t.handles.get? m = some v) (fun _ _ => True)
      t := by
  rw [wp_bind]
  refine Handles.getHandle_wp (fun v hv _ => ?_) fun _ => trivial
  rw [Int.toNat_natCast] at hv
  exact wp_mono (wp_self _ _) (fun _ _ _ => ⟨v, hv⟩) fun _ _ _ => trivial

/-- A shim on the handle in `r3`, from what it does with it. -/
theorem onHandle_refines {a : Act} {regs : Regs} {x : Int → EStateM Exc (Handles M) Unit}
    {request : BlockStore.Request Nat} (hrun : a.run = onHandle x regs)
    (hrequest : a.request = some request) (hkey : ∀ r, a.key r = (regs.gpr 3).toNat)
    (hx : wp (x (regs.gpr 3).toNat)
      (fun _ t => Good (withClassic s t) ∧
        BlockStore.Step (view s) (request, some (regs.gpr 3).toNat) (view (withClassic s t)))
      (fun _ t => Good (withClassic s t) ∧
        BlockStore.Step (view s) (request, none) (view (withClassic s t))) s.classic) :
    Refines a s := by
  rw [Refines, hrun, hrequest, onHandle, wp_bind, wp_oneArg (Or.inr rfl), wp_bind, wp_onHandles]
  refine wp_mono hx (fun _ t ht => ?_) fun _ _ he => he
  rw [wp_pure, hkey]
  exact ht

theorem disposeHandle_refines (h : Good s) (regs : Regs) : Refines (.disposeHandle regs) s := by
  refine onHandle_refines rfl rfl (fun _ => rfl) (wp_mono
    (wp_and (Handles.dispose_spec h.inv.classic (regs.gpr 3).toNat)
      (getHandle_held (regs.gpr 3).toNat _)) (fun _ t ht => ?_) fun e t he => ?_)
  · obtain ⟨⟨hm, hd⟩, v, hv⟩ := ht
    have hst : HandleTables.Stepped (.dispose (regs.gpr 3).toNat) s (withClassic s t) :=
      HandleTables.dispose_stepped h.inv hd hm
    have htab : (withClassic s t).classic.handles = s.classic.handles.erase (regs.gpr 3).toNat :=
      hd.table
    refine ⟨h.stepped hst, ?_⟩
    rw [view_of_stepped hst (fun q hq => Int.ofNat.inj hq) fun q hq => by
        rw [htab, Dict.get?_erase_of_ne _ hq],
      view_eq_none (by rw [htab, Dict.get?_erase_self])]
    exact .dispose (view_of_get? hv)
  · obtain ⟨⟨-, rfl, hnone⟩, -⟩ := he
    exact ⟨h, .unknownDispose (find?_toNat hnone)⟩

/-- What the operations on the state bits do to the table. -/
theorem mark_exact {t : Handles M} (m : Nat) (f : Nat → Nat) :
    wp (do
        let handle ← Handles.getHandle (m : Int)
        Handles.putHandle (m : Int).toNat { handle with stateBits := f handle.stateBits })
      (fun _ t' => ∃ v, t.handles.get? m = some v ∧
        t'.handles = t.handles.set m { v with stateBits := f v.stateBits } ∧ t'.heap = t.heap)
      (fun _ t' => t' = t ∧ t.handles.find? m = none) t := by
  rw [wp_bind]
  refine Handles.getHandle_wp (fun v hv _ => ?_) fun hnone => ⟨rfl, hnone⟩
  rw [Int.toNat_natCast] at hv
  exact ⟨v, hv, rfl, rfl⟩

/-- The shims that lock and unlock, from the bit they set. -/
theorem mark_refines (op : HandleTables.Op) (h : Good s) {a : Act} {regs : Regs}
    {x : Int → EStateM Exc (Handles M) Unit} {f : Nat → Nat} {locked : Bool}
    (hrun : a.run = onHandle x regs)
    (hrequest : a.request = some (.lock (regs.gpr 3).toNat locked))
    (hkey : ∀ r, a.key r = (regs.gpr 3).toNat)
    (hx : ∀ m : Int, x m = do
      let handle ← Handles.getHandle m
      Handles.putHandle m.toNat { handle with stateBits := f handle.stateBits })
    (hop : ∀ q, op.onClassic q ↔ (q : Int) = (regs.gpr 3).toNat)
    (hcw : ∀ c v, ¬ op.onCw c v) (hbit : ∀ b, decide (f b &&& 0x80 ≠ 0) = locked) :
    Refines a s := by
  refine onHandle_refines hrun hrequest hkey ?_
  rw [hx]
  refine wp_mono (wp_and (Handles.mark_spec h.inv.classic (regs.gpr 3).toNat f)
    (mark_exact (regs.gpr 3).toNat f)) (fun _ t ht => ?_) fun e t he => ?_
  · obtain ⟨⟨hm, hmarked⟩, v, hv, htab, hheap⟩ := ht
    have hst : HandleTables.Stepped op s (withClassic s t) :=
      HandleTables.mark_stepped h.inv hop hcw hmarked hm
    have htab : (withClassic s t).classic.handles = _ := htab
    have hguest : (withClassic s t).heap.guest = s.heap.guest := congrArg Heap.guest hheap
    refine ⟨h.stepped hst, ?_⟩
    rw [view_of_stepped hst (fun q hq => Int.ofNat.inj ((hop q).mp hq)) fun q hq => by
        rw [htab, Dict.get?_set_of_ne _ _ hq],
      view_of_get? (by rw [htab, Dict.get?_set_self]), blockOf, hguest, hbit]
    exact .lock (view_of_get? hv)
  · obtain ⟨⟨-, rfl⟩, -, hnone⟩ := he
    exact ⟨h, .unknownLock (find?_toNat hnone)⟩

theorem lock_bit (b : Nat) : decide ((b ||| 0x80) &&& 0x80 ≠ 0) = true := by
  rw [decide_eq_true_eq, Nat.and_or_distrib_right, Nat.and_self]
  exact Nat.ne_of_gt (Nat.lt_of_lt_of_le (by decide) Nat.right_le_or)

theorem unlock_bit (b : Nat) : decide (b &&& 0x7F &&& 0x80 ≠ 0) = false := by
  rw [decide_eq_false_iff_not, Nat.and_assoc]
  exact not_not.mpr (Nat.and_zero b)

theorem hLock_refines (h : Good s) (regs : Regs) : Refines (.hLock regs) s :=
  mark_refines (.lock (regs.gpr 3).toNat) h rfl rfl (fun _ => rfl) (fun _ => rfl)
    (fun _ => Iff.rfl) (fun _ _ h => h) lock_bit

theorem hLockHi_refines (h : Good s) (regs : Regs) : Refines (.hLockHi regs) s :=
  mark_refines (.lock (regs.gpr 3).toNat) h rfl rfl (fun _ => rfl) (fun _ => rfl)
    (fun _ => Iff.rfl) (fun _ _ h => h) lock_bit

theorem hUnlock_refines (h : Good s) (regs : Regs) : Refines (.hUnlock regs) s :=
  mark_refines (.unlock (regs.gpr 3).toNat) h rfl rfl (fun _ => rfl) (fun _ => rfl)
    (fun _ => Iff.rfl) (fun _ _ h => h) unlock_bit

theorem setHandleSize_refines (h : Good s) (regs : Regs) : Refines (.setHandleSize regs) s := by
  show wp (setHandleSize regs) _ _ s
  rw [setHandleSize, wp_bind, wp_twoArgs (Or.inr rfl) (Or.inl rfl), wp_bind, wp_onHandles]
  refine wp_mono (Handles.resize_outcome h.inv.classic (regs.gpr 3).toNat (regs.gpr 4).toNat)
    (fun p t ht => ?_) fun e t he => ?_
  · obtain ⟨⟨hm, hres⟩, hkept, -⟩ := ht
    have hst : HandleTables.Stepped (.resize (regs.gpr 3).toNat (regs.gpr 4).toNat) s
        (withClassic s t) := HandleTables.resize_stepped h.inv hres hm
    obtain ⟨v, hv, htab, -, hbytes⟩ := hkept.record
    rw [Int.toNat_natCast] at hv htab hbytes
    refine ⟨h.stepped hst, ?_⟩
    show BlockStore.Step _ (_, some (regs.gpr 3).toNat) _
    rw [view_of_stepped (m := (regs.gpr 3).toNat) hst (fun q hq => Int.ofNat.inj hq) fun q hq => by
        show t.handles.get? q = _
        rw [htab, Dict.get?_set_of_ne _ _ hq],
      view_of_get? (s := withClassic s t) (v := { v with block := p, requestedSize := _ }) (by
        show t.handles.get? _ = _
        rw [htab, Dict.get?_set_self])]
    refine .resize (view_of_get? hv) (ByteMemory.bytes_length _ _ _) ?_
    show (ByteMemory.bytes t.heap.guest.uc p (regs.gpr 4).toNat).take
        (min (ByteMemory.bytes _ _ _).length _) =
      (ByteMemory.bytes _ _ _).take (min (ByteMemory.bytes _ _ _).length _)
    rw [ByteMemory.bytes_length, ByteMemory.bytes_take _ _ (Nat.min_le_right _ _),
      ByteMemory.bytes_take _ _ (Nat.min_le_left _ _)]
    exact hbytes
  · obtain ⟨-, rfl⟩ := he
    exact ⟨h, .stuck⟩

/-! ### Stores of the guest -/

/-- The tables with another guest memory. -/
def withGuest (s : HandleTables M) (g : Guest M) : HandleTables M :=
  withClassic s { s.classic with heap := { s.heap with guest := g } }

theorem wp_onGuest {α : Type} {x : EStateM Exc (Guest M) α} {Q : α → HandleTables M → Prop}
    {E : Exc → HandleTables M → Prop} :
    wp (HandleTables.onGuest x) Q E s ↔
      wp x (fun a g => Q a (withGuest s g)) (fun e g => E e (withGuest s g)) s.heap.guest := by
  simp only [HandleTables.onGuest, HandleTables.onHandles, Handles.onGuest, Handles.onHeap,
    Heap.onGuest, wp_zoom]
  rfl

/-- A change of the memory that leaves the words and records of the handles alone. -/
theorem Good.withGuest (h : Good s) {g : Guest M}
    (hmapped : ∀ x, M.mapped g.uc x ↔ M.mapped s.heap.guest.uc x)
    (hmasters : ∀ m v, s.classic.handles.get? m = some v → ∀ x, Has (m, 4) x →
      g.byte x = s.heap.guest.byte x)
    (hrecords : ∀ a c, s.cwHandles.get? a = some c → ∀ x, Has (a, 8) x →
      g.byte x = s.heap.guest.byte x) : Good (withGuest s g) := by
  have hruns : HandleTables.GuestRuns s (Carbon.withGuest s g) :=
    ⟨rfl, rfl, ⟨g, rfl⟩, hmapped, hmasters, hrecords⟩
  exact ⟨hruns.inv h.inv, hruns.words h.words⟩

/-- The blocks of all handles, that of `m` in front. -/
theorem owned_block_front {m : Nat} {v : Handle} (hv : s.classic.handles.get? m = some v) :
    s.owned.Perm ((v.block, max v.requestedSize 1) :: (v.master, 4) ::
      (Handles.owned (s.classic.handles.erase m) ++ HandleTables.cwOwned s.cwHandles)) :=
  ((Dict.collect_erase Handle.owned hv).append_right _).trans (List.Perm.swap _ _ _)

/-- The word of a handle holds the address of its block. -/
theorem u32_handle (h : Good s) {m : Nat} {v : Handle} (hv : s.classic.handles.get? m = some v) :
    Guest.u32 m s.heap.guest = .ok v.block s.heap.guest := by
  have hmaster := h.inv.owns.accessible (HandleTables.classic_subset hv List.mem_cons_self)
  rw [h.inv.classic.keyed m v hv] at hmaster
  have hspec : wp (Guest.u32 m) (fun p g => p = v.block ∧ g = s.heap.guest) (fun _ _ => False)
      s.heap.guest := by
    rw [Guest.u32, wp_bind]
    refine wp_mono (Guest.read_spec hmaster (by decide)) (fun data g hr => ?_) fun _ _ he => he
    obtain ⟨rfl, rfl⟩ := hr
    exact ⟨h.words.classic m v hv, rfl⟩
  obtain ⟨p, g, hok, rfl, rfl⟩ := wp_exists_ok hspec
  exact hok

/-- **A store through a handle** changes its string and nothing else. -/
theorem store_refines (h : Good s) {m offset : Nat} {data : List UInt8}
    (hlegal : (Act.store m offset data).Legal s) : Refines (.store m offset data) s := by
  obtain ⟨b, hb, hinside⟩ := hlegal
  obtain ⟨v, hv, rfl⟩ := Option.map_eq_some_iff.mp hb
  rw [blockOf, ByteMemory.bytes_length] at hinside
  show wp (do HandleTables.onGuest (storeThrough m offset data); return ret 0) _ _ s
  rw [wp_bind, wp_onGuest, storeThrough, wp_bind, wp_iff_of_ok (u32_handle h hv)]
  have hperm := owned_block_front hv
  have hfront := h.inv.owns.perm hperm
  have hrange : s.heap.guest.Accessible v.block (max v.requestedSize 1) :=
    hfront.accessible List.mem_cons_self
  refine wp_mono (Guest.write_within hrange (Nat.le_add_right _ offset) (by omega))
    (fun _ g hw => ?_) fun _ _ he => he.elim
  have hk := hfront.keeps_write hw (Nat.le_add_right _ _) (by simp only; omega)
  have hmaster := h.inv.classic.keyed m v hv
  have hother : ∀ q w, q ≠ m → s.classic.handles.get? q = some w → w.owned ⊆
      (v.master, 4) :: (Handles.owned (s.classic.handles.erase m) ++
        HandleTables.cwOwned s.cwHandles) := fun q w hq hw _ hr =>
    List.mem_cons_of_mem _ (HandleTables.owned_subset_erase hw hq hr)
  have hgood : Good (withGuest s g) := by
    refine h.withGuest hw.mapped (fun q w hq x hx => ?_) fun a c hc x hx => ?_
    · by_cases hqm : q = m
      · exact hk x ⟨_, List.mem_cons_self, by rwa [hmaster, ← hqm]⟩
      · refine hk x ⟨(q, 4), hother q w hqm hq ?_, hx⟩
        rw [← h.inv.classic.keyed q w hq]
        exact List.mem_cons_self
    · refine hk x ⟨(a, 8), List.mem_cons_of_mem _ (List.mem_append_right _ ?_), hx⟩
      rw [← h.inv.cwKeyed a c hc]
      exact Dict.collect_subset hc List.mem_cons_self
  refine ⟨hgood, ?_⟩
  show BlockStore.Step _ (_, some m) _
  have hview : view (withGuest s g) =
      Function.update (view s) m (view (withGuest s g) m) :=
    view_update (fun _ _ => rfl) fun q w hqm hq =>
      hk.bytes_eq (hother q w hqm hq (List.mem_cons_of_mem _ List.mem_cons_self)) (le_max_left _ _)
  rw [hview, view_of_get? (s := withGuest s g) hv]
  have hblock : blockOf g v = (blockOf s.heap.guest v).store offset data := by
    rw [blockOf, blockOf, Block.store, hw.bytes_eq hinside]
  show BlockStore.Step _ _ (Function.update _ _ (some (blockOf g v)))
  rw [hblock]
  refine .store (view_of_get? hv) ?_
  rw [blockOf, ByteMemory.bytes_length]
  exact hinside

/-- Any other store changes no string. -/
theorem outside_refines (h : Good s) {addr : Nat} {data : List UInt8} {n : Nat}
    (hlen : data.length = n) (hout : Outside s (addr % 2 ^ 32) n) :
    wp (HandleTables.onGuest (Guest.write addr data))
      (fun _ s' => Good s' ∧ view s' = view s) (fun _ s' => s' = s) s := by
  subst hlen
  rw [wp_onGuest]
  simp only [Guest.write, wp_bind, wp_get]
  cases hw : M.memWrite s.heap.guest.uc (addr % 2 ^ 32) data with
  | none => rfl
  | some uc =>
    have hframe : ∀ x, ¬ Has (addr % 2 ^ 32, data.length) x →
        M.byte uc x = s.heap.guest.byte x := fun x hx => ByteMemory.byte_write_of_not_has hw hx
    refine ⟨h.withGuest (M.write_mapped hw) (fun m v hv x hx => hframe x fun hin => ?_)
      fun a c hc x hx => hframe x fun hin => (hout x hin).2 a c hc hx, view_eq rfl fun m v hv => ?_⟩
    · refine (hout x hin).1 m v hv ⟨(m, 4), ?_, hx⟩
      rw [← h.inv.classic.keyed m v hv]
      exact List.mem_cons_self
    · refine ByteMemory.bytes_congr fun x h1 h2 => hframe x fun hin => ?_
      refine (hout x hin).1 m v hv ⟨(v.block, _), List.mem_cons_of_mem _ List.mem_cons_self, h1, ?_⟩
      exact h2.trans_le (Nat.add_le_add_left (le_max_left _ _) _)

/-- An operation on the other table changes no string. -/
theorem other_refines (op : HandleTables.Op) (h : Good s) {s' : HandleTables M}
    (hst : HandleTables.Stepped op s s') (hon : ∀ m, ¬ op.onClassic m)
    (htab : s'.classic.handles = s.classic.handles) : Good s' ∧ view s' = view s :=
  ⟨h.stepped hst, view_eq htab fun m v hv => (hst.classic m v hv (hon m)).contents⟩

theorem allocCwHandle_refines (h : Good s) (raw : List UInt8) (requestScoped : Bool) :
    Refines (.allocCwHandle raw requestScoped) s := by
  show wp (do let handle ← HandleTables.allocCwHandle raw requestScoped; return ret handle) _ _ s
  rw [wp_bind]
  refine wp_mono (HandleTables.allocCwHandle_spec h.inv raw requestScoped) (fun _ s' hc => ?_)
    fun _ s' he => ?_
  · exact other_refines _ h (HandleTables.allocCw_stepped h.inv hc) (fun _ => id) hc.classic
  · exact other_refines _ h (he.2.stepped h.inv (.allocCwHandle raw requestScoped)) (fun _ => id)
      he.2.classic

theorem freeCwHandle_refines (h : Good s) (handle : Int) : Refines (.freeCwHandle handle) s := by
  show wp (do HandleTables.freeCwHandle handle; return ret 0) _ _ s
  rw [wp_bind]
  refine wp_mono (HandleTables.freeCwHandle_spec h.inv handle) (fun _ s' hf => ?_) fun _ s' he => ?_
  · obtain ⟨hnat, hf⟩ := hf
    refine other_refines (.freeCwHandle handle) h
      (HandleTables.cwFreed_stepped h.inv (fun _ => id) (fun a c _ => ?_) hf) (fun _ => id)
      hf.classic
    simp only [HandleTables.Op.onCw, decide_eq_true_eq]
    omega
  · obtain ⟨-, rfl, -⟩ := he
    exact ⟨h, rfl⟩

theorem freeRequestHandles_refines (h : Good s) : Refines .freeRequestHandles s := by
  show wp (do HandleTables.freeRequestHandles; return ret 0) _ _ s
  rw [wp_bind]
  refine wp_mono (HandleTables.freeRequestHandles_spec h.inv) (fun _ s' hf => ?_)
    fun _ _ he => he.elim
  refine other_refines .freeRequestHandles h
    (HandleTables.cwFreed_stepped h.inv (fun _ => id) (fun a c _ => ?_) hf) (fun _ => id) hf.classic
  simp [HandleTables.Op.onCw]

/-- A new handle, and its result code stored. -/
theorem tempNewHandle_refines (h : Good s) {regs : Regs}
    (hlegal : (Act.tempNewHandle regs).Legal s) : Refines (.tempNewHandle regs) s := by
  show wp (tempNewHandle regs) _ _ s
  rw [tempNewHandle, wp_bind, wp_twoArgs (Or.inl rfl) (Or.inr rfl)]
  show wp (HandleTables.onHandles (Handles.new (regs.gpr 3).toNat false) >>= _) _ _ s
  rw [wp_bind]
  refine wp_mono (wp_and (new_refines h (regs.gpr 3).toNat) (wp_self _ s)) (fun m s' hm => ?_)
    fun _ _ he => he.1
  obtain ⟨⟨hgood, hmod, hstep⟩, hok⟩ := hm
  have hdone : Took s s' (some (.create (regs.gpr 3).toNat, some (ret m).r3)) := by
    rw [ret_r3 hmod]
    exact hstep
  refine wp_ite.mpr ⟨fun hne => (wp_bind _ _).mpr ?_, fun _ => ⟨hgood, hdone⟩⟩
  obtain ⟨hout, hmapped⟩ :=
    (hlegal m s' hok).resolve_left fun h0 => hne (Int.natCast_eq_zero.mpr h0)
  rw [Regs.second] at hout hmapped
  have hmod : (regs.gpr 4).toNat % 2 ^ 32 = (regs.gpr 4).toNat := Nat.mod_eq_of_lt (regs.gpr 4).isLt
  have hlen : (toBE 2 (0 % 2 ^ 16)).length = 2 := toBE_length 2 _
  have hwrite := wp_onGuest.mp (outside_refines hgood hlen (hmod.symm ▸ hout))
  -- The store of the result code does not fail.
  have hok : wp (Guest.write (regs.gpr 4).toNat (toBE 2 (0 % 2 ^ 16))) _ _ s'.heap.guest :=
    Guest.write_written (by rw [hmod, hlen]; exact hmapped)
  refine wp_onGuest.mpr (wp_mono (wp_and hwrite hok) (fun _ g hg => ?_) fun _ _ he => he.2.elim)
  obtain ⟨⟨hgood', hview⟩, -⟩ := hg
  refine ⟨hgood', ?_⟩
  show BlockStore.Step _ _ _
  rw [hview]
  exact hdone

/-- **Every act is a step of the store.** -/
theorem Act.spec (h : Good s) (a : Act) (hlegal : a.Legal s) : Refines a s := by
  cases a with
  | newHandle regs => exact newHandle_refines h regs
  | tempNewHandle regs => exact tempNewHandle_refines h hlegal
  | disposeHandle regs => exact disposeHandle_refines h regs
  | setHandleSize regs => exact setHandleSize_refines h regs
  | hLock regs => exact hLock_refines h regs
  | hLockHi regs => exact hLockHi_refines h regs
  | hUnlock regs => exact hUnlock_refines h regs
  | tempFreeMem => exact ⟨h, rfl⟩
  | allocCwHandle raw requestScoped => exact allocCwHandle_refines h raw requestScoped
  | freeCwHandle handle => exact freeCwHandle_refines h handle
  | freeRequestHandles => exact freeRequestHandles_refines h
  | store handle offset data => exact store_refines h hlegal
  | write addr data =>
    show wp (do HandleTables.onGuest (Guest.write addr data); return ret 0) _ _ s
    rw [wp_bind]
    refine wp_mono (outside_refines h rfl hlegal) (fun _ _ hw => hw) fun _ s' he => ?_
    rw [he]
    exact ⟨h, rfl⟩

end Acts

/-! ## Runs -/

section Runs

variable {heap : Heap M} {s : HandleTables M} {events : List (BlockStore.Event Nat)}

/-- The requests of an act are a run of the store. -/
theorem Act.steps {a : Act} {b : BlockStore Nat} (h : Refines a s)
    (hb : BlockStore.Steps b events (view s)) :
    Good (endState (a.run s)) ∧
      BlockStore.Steps b (events ++ a.events s) (view (endState (a.run s))) := by
  unfold Act.events
  unfold Refines wp at h
  cases hrun : a.run s with
  | ok r s' =>
    rw [hrun] at h
    refine ⟨h.1, ?_⟩
    cases hreq : a.request with
    | none =>
      rw [hreq] at h
      simpa [endState, show view s' = view s from h.2] using hb
    | some request =>
      rw [hreq] at h
      exact .snoc hb h.2
  | error e s' =>
    rw [hrun] at h
    refine ⟨h.1, ?_⟩
    cases hreq : a.request with
    | none =>
      rw [hreq] at h
      simpa [endState, show view s' = view s from h.2] using hb
    | some request =>
      rw [hreq] at h
      exact .snoc hb h.2

/-- **A run** from a good state is a run of the store. -/
theorem Acted.good {s₀ : HandleTables M} (h₀ : Good s₀) (hr : Acted s₀ events s) :
    Good s ∧ BlockStore.Steps (view s₀) events (view s) := by
  induction hr with
  | refl => exact ⟨h₀, .nil⟩
  | act a _ legal ih => exact Act.steps (a.spec ih.1 legal) ih.2

theorem new_good (hheap : heap.WF) : Good (HandleTables.new heap) :=
  ⟨HandleTables.new_inv hheap, HandleTables.new_words heap⟩

theorem view_new (heap : Heap M) : view (HandleTables.new heap) = BlockStore.empty := by
  funext m
  exact view_eq_none (by simp [HandleTables.new])

/-- A load of the guest inside the block of a handle. -/
theorem loadThrough_eq (h : Good s) {m offset n : Nat} {b : Block} (hb : view s m = some b)
    (hn : 0 < n) (hinside : offset + n ≤ b.contents.length) :
    loadThrough m offset n s.heap.guest =
      .ok (slice b.contents offset (offset + n)) s.heap.guest := by
  obtain ⟨v, hv, rfl⟩ := Option.map_eq_some_iff.mp hb
  rw [blockOf, ByteMemory.bytes_length] at hinside
  have hblock : s.heap.guest.Accessible v.block (max v.requestedSize 1) :=
    h.inv.owns.accessible (HandleTables.classic_subset hv
      (List.mem_cons_of_mem _ List.mem_cons_self))
  have hrange : s.heap.guest.Accessible (v.block + offset) n :=
    hblock.sub (Nat.le_add_right _ _) (by omega)
  rw [loadThrough, bind_of_ok (u32_handle h hv)]
  obtain ⟨data, g, hok, rfl, rfl⟩ := wp_exists_ok (Guest.read_spec hrange hn)
  rw [hok, blockOf]
  exact congrArg (EStateM.Result.ok · _) (slice_bytes s.heap.guest.uc v.block hinside).symm

/-- **The Memory Manager is a store of byte strings**: every run of its shims, of the plug-in's
other handles on the same heap, each call returning or raising, and of stores of the guest that keep
to the blocks is a run of a store, and a load through a handle answers the bytes of its string. -/
theorem run_refines {base size : Int} {g g' : Guest M}
    (hinit : Heap.init base size g = .ok heap g') (hr : Acted (HandleTables.new heap) events s) :
    BlockStore.Steps .empty events (view s) ∧
    ∀ m b, view s m = some b → ∀ offset n, 0 < n → offset + n ≤ b.contents.length →
      loadThrough m offset n s.heap.guest =
        .ok (slice b.contents offset (offset + n)) s.heap.guest := by
  obtain ⟨hheap, -⟩ := wp_of_ok (Heap.init_spec base size g) hinit
  obtain ⟨hgood, hsteps⟩ := hr.good (new_good hheap)
  exact ⟨view_new heap ▸ hsteps, fun m b hb offset n hn hinside =>
    loadThrough_eq hgood hb hn hinside⟩

/-- The registers of a call with two arguments. -/
def handleRegs (first second : BitVec 32) : Regs :=
  ⟨fun i => if i.val = 3 then first else second, fun _ => 0, 0, 0, 0, 0, 0, 0, 0⟩

/-- A handle of five bytes. -/
def oneHandle (heap : Heap .flat) : HandleTables .flat :=
  endState (Act.run (.newHandle (handleRegs 5 0)) (HandleTables.new heap))

/-- A byte is stored in it. -/
def oneStored (heap : Heap .flat) : HandleTables .flat :=
  endState (Act.run (.store 0x2008 2 [7]) (oneHandle heap))

/-- Another handle is made behind it. -/
def twoHandles (heap : Heap .flat) : HandleTables .flat :=
  endState (Act.run (.newHandle (handleRegs 8 0)) (oneStored heap))

/-- The first handle grows, and its block moves. -/
def oneMoved (heap : Heap .flat) : HandleTables .flat :=
  endState (Act.run (.setHandleSize (handleRegs 0x2008 12)) (twoHandles heap))

theorem oneStored_legal {heap : Heap .flat}
    (hview : view (oneHandle heap) 0x2008 = some ⟨[0, 0, 0, 0, 0], false⟩) :
    (Act.store 0x2008 2 [7]).Legal (oneHandle heap) := ⟨_, hview, by decide⟩

/-- A store, a second handle and a block that moves. -/
theorem run_refines_flat :
    ∃ (heap : Heap .flat) (g : Guest .flat),
      Heap.init 0x2000 256 ⟨ByteMemory.blank⟩ = .ok heap g ∧
      ((twoHandles heap).classic.handles.get? 0x2008).map Handle.block = some 0x2000 ∧
      ((oneMoved heap).classic.handles.get? 0x2008).map Handle.block = some 0x2020 ∧
      ∃ events, Acted (HandleTables.new heap) events (oneMoved heap) ∧
        BlockStore.Steps .empty events (view (oneMoved heap)) ∧
        loadThrough 0x2008 1 3 (oneMoved heap).heap.guest =
          .ok [0, 7, 0] (oneMoved heap).heap.guest := by
  obtain ⟨heap, g, hi, hblock, hblock', hview, hview'⟩ :
      ∃ (heap : Heap .flat) (g : Guest .flat),
        Heap.init 0x2000 256 ⟨ByteMemory.blank⟩ = .ok heap g ∧
        ((twoHandles heap).classic.handles.get? 0x2008).map Handle.block = some 0x2000 ∧
        ((oneMoved heap).classic.handles.get? 0x2008).map Handle.block = some 0x2020 ∧
        view (oneHandle heap) 0x2008 = some ⟨[0, 0, 0, 0, 0], false⟩ ∧
        view (oneMoved heap) 0x2008 = some ⟨0 :: 0 :: 7 :: List.replicate 9 0, false⟩ :=
    ⟨_, _, rfl, rfl, rfl, by decide, by decide +kernel⟩
  have hr : Acted (HandleTables.new heap) _ (oneMoved heap) :=
    .act _ (.act _ (.act _ (.act _ .refl trivial) (oneStored_legal hview)) trivial) trivial
  obtain ⟨hsteps, hload⟩ := run_refines hi hr
  exact ⟨heap, g, hi, hblock, hblock', _, hr, hsteps, hload 0x2008 _ hview' 1 3 (by decide)
    (by decide)⟩

/-- **A byte within a handle is what was stored there last**, whatever else is created, resized,
disposed of or stored in between, and wherever the block has moved: as long as the handle is not
disposed of or cut below the byte, a load through it answers the last byte stored there. -/
theorem run_lastStored {base size : Int} {g g' : Guest M} {later : List (BlockStore.Event Nat)}
    {s' : HandleTables M} {m i : Nat} {v : UInt8}
    (hinit : Heap.init base size g = .ok heap g') (hr : Acted (HandleTables.new heap) events s)
    (hv : BlockStore.byteAt (view s) m i = some v) (hlater : Acted s later s')
    (hspares : ∀ e ∈ later, BlockStore.Spares m i e) :
    loadThrough m i 1 s'.heap.guest =
      .ok [(BlockStore.lastStored m i later).getD v] s'.heap.guest := by
  obtain ⟨hheap, -⟩ := wp_of_ok (Heap.init_spec base size g) hinit
  obtain ⟨hgood, -⟩ := hr.good (new_good hheap)
  obtain ⟨hgood', hsteps⟩ := hlater.good hgood
  have hbyte := hsteps.byteAt hv hspares
  obtain ⟨b, hb, hi⟩ := Option.bind_eq_some_iff.mp hbyte
  obtain ⟨hlen, hget⟩ := List.getElem?_eq_some_iff.mp hi
  rw [loadThrough_eq hgood' hb Nat.one_pos hlen, slice, Nat.add_sub_cancel_left,
    List.drop_eq_getElem_cons hlen, hget]
  rfl

/-- Stored, then moved by growing behind a later handle. -/
theorem run_lastStored_flat :
    ∃ (heap : Heap .flat) (g : Guest .flat),
      Heap.init 0x2000 256 ⟨ByteMemory.blank⟩ = .ok heap g ∧
      ∃ events, Acted (HandleTables.new heap) events (oneMoved heap) ∧
        loadThrough 0x2008 2 1 (oneMoved heap).heap.guest =
          .ok [7] (oneMoved heap).heap.guest := by
  obtain ⟨heap, g, hi, hview, hstore, hcreate, hresize⟩ :
      ∃ (heap : Heap .flat) (g : Guest .flat),
        Heap.init 0x2000 256 ⟨ByteMemory.blank⟩ = .ok heap g ∧
        view (oneHandle heap) 0x2008 = some ⟨[0, 0, 0, 0, 0], false⟩ ∧
        Act.events (.store 0x2008 2 [7]) (oneHandle heap) =
          [(.store 0x2008 2 [7], some 0x2008)] ∧
        Act.events (.newHandle (handleRegs 8 0)) (oneStored heap) = [(.create 8, some 0x200C)] ∧
        Act.events (.setHandleSize (handleRegs 0x2008 12)) (twoHandles heap) =
          [(.resize 0x2008 12, some 0x2008)] :=
    ⟨_, _, rfl, by decide, by decide, by decide, by decide⟩
  have hfirst : Acted (HandleTables.new heap) _ (oneHandle heap) := .act _ .refl trivial
  have hlater : Acted (oneHandle heap) ([] ++ Act.events (.store 0x2008 2 [7]) (oneHandle heap) ++
      Act.events (.newHandle (handleRegs 8 0)) (oneStored heap) ++
      Act.events (.setHandleSize (handleRegs 0x2008 12)) (twoHandles heap)) (oneMoved heap) :=
    .act (.setHandleSize (handleRegs 0x2008 12)) (.act (.newHandle (handleRegs 8 0))
      (.act (.store 0x2008 2 [7]) .refl (oneStored_legal hview)) trivial) trivial
  have hbyte : BlockStore.byteAt (view (oneHandle heap)) 0x2008 2 = some 0 := by
    rw [BlockStore.byteAt_of_held hview]
    rfl
  rw [hstore, hcreate, hresize] at hlater
  exact ⟨heap, g, hi, _, .act _ (.act _ (.act _ hfirst (oneStored_legal hview)) trivial) trivial,
    run_lastStored hi hfirst hbyte hlater (by decide)⟩

end Runs

/-! ## Free memory -/

section Room

variable {heap : Heap M} {s : HandleTables M}

/-- What the live handles take: the words and blocks of the classic ones, the records and blocks of
the others. -/
def taken (s : HandleTables M) : Nat :=
  (s.classic.handles.values.map fun v => 4 + max v.requestedSize 1).sum +
    (s.cwHandles.values.map fun c => 8 + max c.size 1).sum

theorem sum_collect {ν : Type} (d : Dict Nat ν) (f : ν → List Range) :
    ((d.collect f).map Prod.snd).sum = (d.values.map fun v => ((f v).map Prod.snd).sum).sum := by
  unfold Dict.collect
  induction d.values with
  | nil => rfl
  | cons v l ih => rw [List.flatMap_cons, List.map_append, List.sum_append, ih]; rfl

theorem sum_owned (s : HandleTables M) : (s.owned.map Prod.snd).sum = taken s := by
  rw [HandleTables.owned, Handles.owned, HandleTables.cwOwned, List.map_append, List.sum_append,
    sum_collect, sum_collect]
  rfl

/-- When every live allocation is owned, the sizes of both are the same. -/
theorem live_eq_taken (hi : HandleTables.Inv s) (hx : HandleTables.Exact s) :
    s.heap.allocations.values.sum = taken s := by
  have hperm : s.heap.allocations.items.Perm s.owned :=
    (List.perm_ext_iff_of_nodup (s.heap.allocations.nodup.of_map _) (hi.owns.nodup.of_map _)).mpr
      fun r => ⟨fun hr => hx r (Dict.get?_eq_some_iff.mpr hr),
        fun hr => Dict.get?_eq_some_iff.mp (hi.owns.live r hr)⟩
  rw [← sum_owned, ← (hperm.map Prod.snd).sum_eq]
  rfl

/-- **`TempFreeMem` is exact**: on a run without leaking creations it answers the size of the heap
less what the live handles take, whatever has been created, resized and disposed of before. -/
theorem tempFreeMem_exact {base size : Int} {g g' : Guest M}
    (hinit : Heap.init base size g = .ok heap g')
    (hr : HandleTables.Run HandleTables.leakless heap s) :
    taken s ≤ s.heap.size ∧ tempFreeMem s = .ok (ret ((s.heap.size : Int) - taken s)) s := by
  obtain ⟨hheap, -, -, -, hempty⟩ := wp_of_ok (Heap.init_spec base size g) hinit
  have hi := hr.inv hheap
  have hsum := hi.owns.wf.freeBytes_add_live
  rw [live_eq_taken hi (hr.exact hheap hempty)] at hsum
  refine ⟨by omega, ?_⟩
  show EStateM.Result.ok (ret (s.heap.freeBytes : Int)) s = _
  rw [← hsum, Nat.cast_add, Int.add_sub_cancel]

/-- A handle of the Memory Manager and a `CWMemHandle`. -/
def oneOfEach (heap : Heap .flat) : HandleTables .flat :=
  endState (HandleTables.Op.call (.allocCwHandle [1, 2, 3] false)
    (endState (HandleTables.Op.call (.new 5 false) (HandleTables.new heap))))

theorem tempFreeMem_exact_flat :
    ∃ (heap : Heap .flat) (g : Guest .flat),
      Heap.init 0x2000 256 ⟨ByteMemory.blank⟩ = .ok heap g ∧
      taken (oneOfEach heap) = (4 + 5) + (8 + 3) ∧
      tempFreeMem (oneOfEach heap) = .ok (ret 236) (oneOfEach heap) := by
  obtain ⟨heap, g, hi, ⟨m, t, hnew⟩, ⟨a, s, halloc⟩, htaken, hsize⟩ :
      ∃ (heap : Heap .flat) (g : Guest .flat),
        Heap.init 0x2000 256 ⟨ByteMemory.blank⟩ = .ok heap g ∧
        (∃ m t, Handles.new 5 false (HandleTables.new heap).classic = .ok m t) ∧
        (∃ a s, HandleTables.allocCwHandle [1, 2, 3] false
          (endState (HandleTables.Op.call (.new 5 false) (HandleTables.new heap))) = .ok a s) ∧
        taken (oneOfEach heap) = 20 ∧ (oneOfEach heap).heap.size = 256 :=
    ⟨_, _, rfl, ⟨_, _, rfl⟩, ⟨_, _, rfl⟩, rfl, rfl⟩
  obtain ⟨hheap, -⟩ := wp_of_ok (Heap.init_spec 0x2000 256 _) hi
  have hfirst : HandleTables.Run HandleTables.leakless heap
      (endState (HandleTables.Op.call (.new 5 false) (HandleTables.new heap))) :=
    .call _ .new (HandleTables.not_leaks_of_new (HandleTables.new_inv hheap) hnew)
  have hr : HandleTables.Run HandleTables.leakless heap (oneOfEach heap) :=
    .call _ hfirst (HandleTables.not_leaks_of_alloc (hfirst.inv hheap) halloc)
  have hfree := (tempFreeMem_exact hi hr).2
  rw [htaken, hsize] at hfree
  exact ⟨heap, g, hi, htaken, hfree⟩

end Room

end Cwhost.Carbon
