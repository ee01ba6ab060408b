import Cwhost.Guest.Machine
import Cwhost.Lib.Bump
import Cwhost.Session.HostSession

/-!
# Who hands out guest addresses (`guest.py`, `alloc` and `alloc_trap_slot`; `memory.py`, `Heap`)

Three allocators work on one guest: a pointer that goes up through the scratch region, a page of
trap words with a table from names to words and one back, and the heap of the session. Each has a
region of its own, which the constructors map.

* `alloc`, `allocTrapSlot`, `Call`, `granted`: the code's, and what the calls of a run return.
* `alloc_spec`, `allocTrapSlot_spec`: what one call does; a call that raises does nothing.
* `alloc_hostSession`, `allocTrapSlot_machine`: these are the allocators of the session and of the
  machine.
* `Inv`, `step_inv`, `run_inv`: each allocator stays in its region. `Separate`, `run_separate`: so
  nothing is handed out twice.
-/

namespace Cwhost

open Lib

/-- A guest and the heap of a session on it. The heap holds the guest's memory. -/
structure AddressSpace (M : ByteMemory) where
  heap : Heap M
  /-- `_scratch`. -/
  scratch : Nat
  /-- `_trap_next`. -/
  trapNext : Nat
  /-- `_traps`. -/
  traps : Dict Nat Str
  /-- `_trap_addresses`. -/
  trapAddresses : Dict Str Nat

namespace AddressSpace

variable {M : ByteMemory}

/-- The state the constructors leave. -/
def new (heap : Heap M) : AddressSpace M where
  heap := heap
  scratch := Guest.scratchBase
  trapNext := 0
  traps := .empty
  trapAddresses := .empty

/-- Work on the heap. -/
def onHeap {α : Type} (x : EStateM Exc (Heap M) α) : EStateM Exc (AddressSpace M) α :=
  zoom AddressSpace.heap (fun s h => { s with heap := h }) x

/-- `Guest.alloc`. -/
def alloc (size align : Int) : EStateM Exc (AddressSpace M) Nat := do
  if size < 0 ∨ align ≤ 0 ∨ Int.land align (align - 1) ≠ 0 then
    throw (.hostError s!"invalid guest allocation size/alignment: {size}/{align}")
  let s ← get
  let address := alignTo s.scratch align
  let stop := address + max size 1
  if stop > Guest.scratchBase + Guest.scratchSize then
    throw (.hostError "guest scratch allocation exhausted")
  set { s with scratch := stop.toNat }
  return address.toNat

/-- `Guest.alloc_trap_slot`. -/
def allocTrapSlot (name : Str) : EStateM Exc (AddressSpace M) Nat := do
  let s ← get
  match s.trapAddresses.get? name with
  | some address => return address
  | none =>
    if s.trapNext ≥ Guest.trapSize / 4 then
      throw (.hostError "guest trap page exhausted")
    let address := Guest.trapBase + s.trapNext * 4
    set { s with
      trapNext := s.trapNext + 1
      traps := s.traps.set address name
      trapAddresses := s.trapAddresses.set name address }
    onHeap (Heap.onGuest (Guest.w32 address 0x4E800020))
    return address

/-- A call of one of the allocators. -/
inductive Call
  | alloc (size align : Int)
  | allocTrapSlot (name : Str)
  /-- `Heap.alloc`. -/
  | heapAlloc (size align : Int)
  deriving DecidableEq, Repr

/-- The call itself. -/
def Call.run : Call → EStateM Exc (AddressSpace M) Nat
  | .alloc size align => AddressSpace.alloc size align
  | .allocTrapSlot name => AddressSpace.allocTrapSlot name
  | .heapAlloc size align => onHeap (Heap.alloc size align)

/-- The call with the address it has returned, if it has. -/
def Call.answer (call : Call) (s : AddressSpace M) : List (Call × Nat) :=
  ((okValue (call.run s)).map (call, ·)).toList

/-- The calls of a run that have returned, with their addresses. -/
def granted : List Call → AddressSpace M → List (Call × Nat)
  | [], _ => []
  | call :: calls, s => call.answer s ++ granted calls (endState (call.run s))

/-- The state after a run, each call returning or raising. -/
def after (calls : List Call) (s : AddressSpace M) : AddressSpace M :=
  calls.foldl (fun s call => endState (call.run s)) s

/-- The range a call of `Guest.alloc` has returned. -/
def scratchBlock : Call × Nat → Option Range
  | (.alloc size _, address) => some (address, max size.toNat 1)
  | _ => none

/-! ## One call -/

section Specs

variable {s : AddressSpace M}

/-- What `Guest.alloc` has done. -/
structure Scratched (s s' : AddressSpace M) (size align : Int) (address : Nat) : Prop where
  pos : 0 < align
  aligned : align ∣ address
  above : s.scratch ≤ address
  inside : address + max size.toNat 1 ≤ Guest.scratchBase + Guest.scratchSize
  state : s' = { s with scratch := address + max size.toNat 1 }

/-- **`alloc`** takes the next aligned bytes of the scratch region, or raises and changes
nothing. -/
theorem alloc_spec (size align : Int) :
    wp (alloc size align) (fun address s' => Scratched s s' size align address)
      (fun e s' => e.isHostError = true ∧ s' = s) s := by
  simp only [alloc, wp_bind, wp_ite, wp_throw, wp_get, wp_set, wp_pure]
  refine ⟨fun _ => ⟨rfl, trivial⟩, fun hvalid => ?_⟩
  rw [not_or, not_or, not_not] at hvalid
  obtain ⟨hsize, halign, hpow⟩ := hvalid
  obtain ⟨n, hn, hle, -, hdvd⟩ := alignTo_spec s.scratch (not_le.mp halign) hpow
  rw [hn]
  have hstop : ((n : Int) + max size 1).toNat = n + max size.toNat 1 := by omega
  refine ⟨fun _ => ⟨rfl, trivial⟩, fun hfit => ⟨not_le.mp halign, hdvd, hle, ?_, ?_⟩⟩
  · show n + _ ≤ _
    omega
  · rw [hstop]
    rfl

/-- What `alloc_trap_slot` has done for a name without a slot. -/
structure Slotted (s s' : AddressSpace M) (name : Str) (address : Nat) : Prop where
  fresh : s.trapAddresses.get? name = none
  room : s.trapNext < Guest.trapSize / 4
  address_eq : address = Guest.trapBase + s.trapNext * 4
  state : ∃ g, Guest.Written s.heap.guest g address (toBE 4 0x4E800020) ∧
    s' = { s with
      heap := { s.heap with guest := g }
      trapNext := s.trapNext + 1
      traps := s.traps.set address name
      trapAddresses := s.trapAddresses.set name address }

/-- The trap page is there. -/
def PageMapped (s : AddressSpace M) : Prop :=
  s.heap.guest.Accessible Guest.trapBase Guest.trapSize

/-- **`alloc_trap_slot`** returns the slot of the name, or makes one of the next word, or raises and
changes nothing. -/
theorem allocTrapSlot_spec (hpage : s.PageMapped) (name : Str) :
    wp (allocTrapSlot name)
      (fun address s' => (s.trapAddresses.get? name = some address ∧ s' = s) ∨
        Slotted s s' name address)
      (fun e s' => e.isHostError = true ∧ s' = s) s := by
  simp only [allocTrapSlot, wp_bind, wp_get]
  cases hname : s.trapAddresses.get? name with
  | some address => exact Or.inl ⟨rfl, rfl⟩
  | none =>
    simp only [wp_bind, wp_ite, wp_throw, wp_set, wp_pure, onHeap, Heap.onGuest, wp_zoom]
    refine ⟨fun _ => ⟨rfl, trivial⟩, fun hroom => ?_⟩
    have hword : s.heap.guest.Accessible (Guest.trapBase + s.trapNext * 4) 4 :=
      hpage.sub (Nat.le_add_right _ _) (by omega)
    refine wp_mono (Guest.w32_spec hword) (fun _ g hg => Or.inr ?_) fun _ _ h => h.elim
    exact ⟨hname, not_le.mp hroom, rfl, g, hg.1, rfl⟩

end Specs

/-! ## The allocators of the session and of the machine -/

section Agreement

variable {s : AddressSpace M}

/-- Rounding up is that of the guest's mappings. -/
theorem alignTo_eq_alignUp (v : Nat) {align : Nat} (h : align ≠ 0)
    (hpow : align &&& (align - 1) = 0) : alignTo v align = Guest.alignUp v align := by
  obtain ⟨k, rfl⟩ := (Nat.and_sub_one_eq_zero_iff_isPowerOfTwo h).mp hpow
  rw [Nat.cast_pow]
  exact alignTo_two_pow v k

/-- The same sizes and alignments are refused. -/
theorem refused_iff (size align : Nat) :
    ((size : Int) < 0 ∨ (align : Int) ≤ 0 ∨ Int.land align (align - 1) ≠ 0) ↔
      align = 0 ∨ align &&& (align - 1) ≠ 0 := by
  by_cases h : align = 0
  · rw [h]
    exact iff_of_true (Or.inr (Or.inl (Int.le_refl 0))) (Or.inl rfl)
  · rw [land_sub_one h]
    omega

/-- **The session's `alloc`** is this one, for sizes and alignments that are not negative. -/
theorem alloc_hostSession {l : HostSession M} (hscratch : s.scratch = l.scratch)
    (size align : Nat) :
    wp (alloc size align)
      (fun address s' =>
        HostSession.alloc size align l = .ok address { l with scratch := s'.scratch })
      (fun e _ => HostSession.alloc size align l = .error e l) s := by
  simp only [alloc, wp_bind, wp_ite, wp_throw, wp_get, wp_set, wp_pure, refused_iff, hscratch]
  refine ⟨fun hrefused => ?_, fun hvalid => ?_⟩
  · rw [HostSession.alloc, if_pos hrefused]
    rfl
  · have hpos : align ≠ 0 := fun h => hvalid (Or.inl h)
    have hpow : align &&& (align - 1) = 0 := not_not.mp fun h => hvalid (Or.inr h)
    rw [alignTo_eq_alignUp l.scratch hpos hpow, HostSession.alloc, if_neg hvalid]
    have hstop : ((Guest.alignUp l.scratch align : Int) + max (size : Int) 1).toNat =
        Guest.alignUp l.scratch align + max size 1 := by
      omega
    refine ⟨fun hfull => ?_, fun hfits => ?_⟩
    · show (if _ > _ then _ else _ : EStateM Exc (HostSession M) Nat) l = _
      rw [if_pos (by omega)]
      rfl
    · show (if _ > _ then _ else _ : EStateM Exc (HostSession M) Nat) l = _
      rw [if_neg (by omega), hstop]
      rfl

/-- The trap slots of a machine are those of `s`. -/
structure Agrees {H : Type} (s : AddressSpace M) (m : Machine M H) : Prop where
  guest : m.world.guest = s.heap.guest
  next : m.world.trapNext = s.trapNext
  slots : ∀ name, s.trapAddresses.get? name = (m.world.trapAddresses.get? name).map BitVec.toNat
  names : ∀ slot : BitVec 32, s.traps.get? slot.toNat = m.world.traps.get? slot

theorem Agrees.slotted {H : Type} {m : Machine M H} (h : Agrees s m) {slot : BitVec 32}
    {address : Nat} (hslot : slot.toNat = address) (name : Str) (g : Guest M) :
    Agrees { s with
        heap := { s.heap with guest := g }
        trapNext := s.trapNext + 1
        traps := s.traps.set address name
        trapAddresses := s.trapAddresses.set name address }
      { m with world := { m.world with
        guest := g
        trapNext := m.world.trapNext + 1
        traps := m.world.traps.set slot name
        trapAddresses := m.world.trapAddresses.set name slot } } where
  guest := rfl
  next := congrArg (· + 1) h.next
  slots other := by
    show (s.trapAddresses.set name address).get? other =
      ((m.world.trapAddresses.set name slot).get? other).map BitVec.toNat
    rw [Dict.get?_set, Dict.get?_set]
    split
    · rw [← hslot]
      rfl
    · exact h.slots other
  names other := by
    show (s.traps.set address name).get? other.toNat = (m.world.traps.set slot name).get? other
    rw [Dict.get?_set, Dict.get?_set, ← hslot, h.names]
    exact if_congr BitVec.toNat_inj rfl rfl

/-- **The machine's `alloc_trap_slot`** is this one: the same slot or the same exception. -/
theorem allocTrapSlot_machine {H : Type} {m : Machine M H} (h : Agrees s m) (name : Str) :
    wp (allocTrapSlot name)
      (fun address s' => wp (Machine.allocTrapSlot name)
        (fun slot m' => slot.toNat = address ∧ Agrees s' m') (fun _ _ => False) m)
      (fun e s' => wp (Machine.allocTrapSlot name) (fun _ _ => False)
        (fun stop m' => stop = .raised e ∧ Agrees s' m') m) s := by
  simp only [allocTrapSlot, Machine.allocTrapSlot, wp_bind, wp_get, h.slots]
  cases m.world.trapAddresses.get? name with
  | some slot => exact ⟨rfl, h⟩
  | none =>
    by_cases hfull : s.trapNext ≥ Guest.trapSize / 4
    · have hfull' : m.world.trapNext ≥ Guest.trapSize / 4 := h.next ▸ hfull
      simp only [Option.map_none, if_pos hfull, if_pos hfull', wp_bind, wp_throw, Machine.raise_]
      exact ⟨trivial, h⟩
    · have hfull' : ¬ m.world.trapNext ≥ Guest.trapSize / 4 := h.next ▸ hfull
      have hslot : (BitVec.ofNat 32 (Guest.trapBase + m.world.trapNext * 4)).toNat =
          Guest.trapBase + s.trapNext * 4 := by
        have hlt : Guest.trapBase + Guest.trapSize / 4 * 4 < 2 ^ 32 := by decide
        rw [BitVec.toNat_ofNat, Nat.mod_eq_of_lt (by omega), h.next]
      simp only [Option.map_none, if_neg hfull, if_neg hfull', wp_bind, wp_set, wp_pure, wp_modify,
        wp_mapError, wp_zoom, onHeap, Heap.onGuest, Machine.modifyWorld, Machine.onMemory, hslot,
        h.guest]
      refine wp_mono (wp_self _ _) (fun _ g hg => ?_) fun e g hg => ?_
      · exact (wp_iff_of_ok hg).mpr ⟨trivial, h.slotted hslot name g⟩
      · exact (wp_iff_of_error hg).mpr ⟨rfl, h.slotted hslot name g⟩

end Agreement

/-! ## Every run -/

/-- What is true of a call that has returned an address, also later. -/
def Held (s : AddressSpace M) : Call × Nat → Prop
  | (.alloc _ align, address) => 0 < align ∧ align ∣ address
  | (.allocTrapSlot name, address) => s.trapAddresses.get? name = some address
  | (.heapAlloc size _, address) => s.heap.allocations.get? address = some (max size.toNat 1)

/-- Slots and heap blocks were added. -/
structure Grows (s s' : AddressSpace M) : Prop where
  slots : ∀ {name address}, s.trapAddresses.get? name = some address →
    s'.trapAddresses.get? name = some address
  blocks : ∀ {address n}, s.heap.allocations.get? address = some n →
    s'.heap.allocations.get? address = some n

/-- **Each allocator keeps to its region**: the scratch ranges end at the pointer, the slots are the
first words of the trap page, and the two tables of names invert each other. -/
structure Inv (l : List (Call × Nat)) (s : AddressSpace M) : Prop where
  heap : s.heap.WF
  base : s.heap.base = Guest.heapBase
  size : s.heap.size = 256 <<< 20
  page : s.PageMapped
  scratch : Bumped Guest.scratchBase s.scratch (l.filterMap scratchBlock)
  inside : s.scratch ≤ Guest.scratchBase + Guest.scratchSize
  room : s.trapNext ≤ Guest.trapSize / 4
  inverse : s.traps.Inverse s.trapAddresses
  slot : ∀ {slot name}, s.traps.get? slot = some name →
    ∃ k < s.trapNext, slot = Guest.trapBase + k * 4
  held : ∀ g ∈ l, Held s g

section Run

variable {s s' : AddressSpace M} {l : List (Call × Nat)}

theorem Held.mono {g : Call × Nat} (h : Held s g) (hgrows : Grows s s') : Held s' g := by
  obtain ⟨call, address⟩ := g
  cases call with
  | alloc size align => exact h
  | allocTrapSlot name => exact hgrows.slots h
  | heapAlloc size align => exact hgrows.blocks h

/-- Another call has returned, one that takes no scratch memory. -/
theorem Inv.log (h : Inv l s) {g : Call × Nat} (hnone : scratchBlock g = none) (hg : Held s g) :
    Inv (l ++ [g]) s := by
  refine { h with
    scratch := ?_
    held := List.forall_mem_append.mpr ⟨h.held, List.forall_mem_singleton.mpr hg⟩ }
  rw [List.filterMap_append, List.filterMap_cons_none hnone, List.filterMap_nil, List.append_nil]
  exact h.scratch

theorem alloc_inv (h : Inv l s) {size align : Int} {address : Nat}
    (hs : Scratched s s' size align address) :
    Inv (l ++ [(.alloc size align, address)]) s' := by
  obtain rfl := hs.state
  refine ⟨h.heap, h.base, h.size, h.page, ?_, hs.inside, h.room, h.inverse, h.slot,
    List.forall_mem_append.mpr ⟨fun g hg => ?_, List.forall_mem_singleton.mpr ?_⟩⟩
  · rw [List.filterMap_append]
    exact h.scratch.push hs.above _
  · exact (h.held g hg).mono ⟨fun hslot => hslot, fun hblock => hblock⟩
  · exact ⟨hs.pos, hs.aligned⟩

theorem Inv.no_slot (h : Inv l s) : s.traps.get? (Guest.trapBase + s.trapNext * 4) = none := by
  cases hget : s.traps.get? (Guest.trapBase + s.trapNext * 4) with
  | none => rfl
  | some name =>
    obtain ⟨k, hk, heq⟩ := h.slot hget
    omega

theorem slot_inv (h : Inv l s) {name : Str} {address : Nat} (hs : Slotted s s' name address) :
    Inv l s' ∧ s'.trapAddresses.get? name = some address := by
  obtain ⟨g, hg, rfl⟩ := hs.state
  obtain rfl := hs.address_eq
  have hroom := hs.room
  refine ⟨⟨h.heap.withGuest hg.mapped, h.base, h.size, ⟨hg.mappedRange h.page.mapped, h.page.below⟩,
    h.scratch, h.inside, hroom, h.inverse.set h.no_slot hs.fresh, fun {slot other} hslot => ?_,
    fun x hx => (h.held x hx).mono ⟨fun {other a} hother => ?_, fun hblock => hblock⟩⟩,
    Dict.get?_set_self _ _ _⟩
  · change (s.traps.set _ _).get? slot = some other at hslot
    show ∃ k < s.trapNext + 1, _
    rw [Dict.get?_set] at hslot
    split at hslot
    · rename_i heq
      exact ⟨s.trapNext, Nat.lt_succ_self _, heq⟩
    · obtain ⟨k, hk, heq⟩ := h.slot hslot
      exact ⟨k, Nat.lt_succ_of_lt hk, heq⟩
  · refine (Dict.get?_set_of_ne _ _ ?_).trans hother
    rintro rfl
    rw [hs.fresh] at hother
    cases hother

theorem heapAlloc_inv (h : Inv l s) {h' : Heap M} {address n : Nat}
    (ha : Heap.Allocated s.heap h' address n) (hn : 0 < n) : Inv l { s with heap := h' } := by
  have hnone := h.heap.get?_eq_none_of_free (ha.fresh address ⟨Nat.le_refl _, by simpa using hn⟩)
  refine ⟨ha.wf, ha.range.base.trans h.base, ha.range.size.trans h.size, ?_, h.scratch, h.inside,
    h.room, h.inverse, h.slot, fun x hx => (h.held x hx).mono ⟨fun hslot => hslot, ?_⟩⟩
  · show h'.guest.Accessible _ _
    rw [ha.guest]
    exact h.page
  · intro a m ham
    show h'.allocations.get? a = some m
    rw [ha.table, Dict.get?_set_of_ne, ham]
    rintro rfl
    rw [hnone] at ham
    cases ham

/-- A call that raises raises `HostError` and does nothing, and one that returns keeps the
invariant. -/
theorem call_spec (h : Inv l s) (call : Call) :
    wp call.run (fun address s' => Inv (l ++ [(call, address)]) s')
      (fun e s' => e.isHostError = true ∧ s' = s) s := by
  cases call with
  | alloc size align =>
    exact wp_mono (alloc_spec size align) (fun _ _ hs => alloc_inv h hs) fun _ _ h => h
  | allocTrapSlot name =>
    refine wp_mono (allocTrapSlot_spec h.page name) (fun address s' hs => ?_) fun _ _ h => h
    rcases hs with ⟨hname, rfl⟩ | hs
    · exact h.log rfl hname
    · obtain ⟨hinv, hname⟩ := slot_inv h hs
      exact hinv.log rfl hname
  | heapAlloc size align =>
    refine wp_zoom.mpr (wp_mono (Heap.alloc_spec h.heap size align) (fun address h' ha => ?_) ?_)
    · refine (heapAlloc_inv h ha (by omega)).log rfl ?_
      show h'.allocations.get? address = _
      rw [ha.table, Dict.get?_set_self]
    · rintro e h' ⟨he, rfl⟩
      exact ⟨he, rfl⟩

/-- **One call keeps the invariant**, however it ends. -/
theorem step_inv (h : Inv l s) (call : Call) :
    Inv (l ++ call.answer s) (endState (call.run s)) := by
  have hspec := call_spec h call
  unfold Call.answer
  cases hc : call.run s with
  | ok address s' =>
    have hreturned := wp_of_ok hspec hc
    exact hreturned
  | error e s' =>
    obtain ⟨-, rfl⟩ := wp_of_error hspec hc
    exact (List.append_nil l).symm ▸ h

/-- **Every run keeps the invariant.** -/
theorem run_inv (h : Inv l s) (calls : List Call) : Inv (l ++ granted calls s) (after calls s) := by
  induction calls generalizing l s with
  | nil => exact (List.append_nil l).symm ▸ h
  | cons call calls ih =>
    have hstep := ih (step_inv h call)
    rw [List.append_assoc] at hstep
    exact hstep

/-- The constructors establish it. -/
theorem new_inv {heap : Heap M} {g g' : Guest M} (hnew : HostSession.newHeap g = .ok heap g') :
    Inv [] (new heap) := by
  obtain ⟨hwf, hbase, hsize⟩ := wp_of_ok (HostSession.newHeap_wf g) hnew
  have hpage := (wp_of_ok (HostSession.newHeap_maps g) hnew).1
  refine ⟨hwf, hbase, hsize, ⟨hpage, by decide⟩, .nil _, Nat.le_add_right _ _, Nat.zero_le _,
    Dict.inverse_empty, ?_, fun x hx => absurd hx List.not_mem_nil⟩
  intro slot name h
  cases h

end Run

/-! ## Nothing is handed out twice -/

/-- The regions of the allocators, in the order of their addresses. -/
theorem regions_order : Guest.trapBase + Guest.trapSize ≤ Guest.scratchBase ∧
    Guest.scratchBase + Guest.scratchSize ≤ Guest.heapBase := by
  decide

/-- **Scratch memory and trap slots are not shared**: of the calls `l` that have returned, and the
state they have left. -/
structure Separate (l : List (Call × Nat)) (s : AddressSpace M) : Prop where
  /-- Scratch ranges are aligned as asked. -/
  aligned : ∀ {size align address}, (Call.alloc size align, address) ∈ l →
    0 < align ∧ align ∣ address
  disjoint : (l.filterMap scratchBlock).Pairwise fun r r' => ∀ x, ¬ (Has r x ∧ Has r' x)
  inside : ∀ r ∈ l.filterMap scratchBlock,
    Guest.scratchBase ≤ r.1 ∧ r.1 + r.2 ≤ Guest.scratchBase + Guest.scratchSize
  /-- A heap block that was returned is in the table of blocks. -/
  block : ∀ {size align address}, (Call.heapAlloc size align, address) ∈ l →
    s.heap.allocations.get? address = some (max size.toNat 1)
  off_heap : ∀ r ∈ l.filterMap scratchBlock, ∀ b ∈ s.heap.allocations.items,
    ∀ x, ¬ (Has r x ∧ Has b x)
  off_words : ∀ r ∈ l.filterMap scratchBlock, ∀ slot ∈ s.traps.keys,
    ∀ x, ¬ (Has r x ∧ Has (slot, 4) x)
  /-- A slot that was returned is in the table of slots. -/
  named : ∀ {name address}, (Call.allocTrapSlot name, address) ∈ l →
    s.trapAddresses.get? name = some address
  same_slot : ∀ {name name' slot slot'}, s.trapAddresses.get? name = some slot →
    s.trapAddresses.get? name' = some slot' → (slot = slot' ↔ name = name')
  inverse : ∀ slot name, s.traps.get? slot = some name ↔ s.trapAddresses.get? name = some slot
  in_page : ∀ slot ∈ s.traps.keys,
    Guest.trapBase ≤ slot ∧ slot + 4 ≤ Guest.trapBase + Guest.trapSize
  failing : ∀ (call : Call) {e s'}, call.run s = .error e s' → e.isHostError = true ∧ s' = s

section Separate

variable {s : AddressSpace M} {l : List (Call × Nat)}

theorem Inv.within (h : Inv l s) {r : Range} (hr : r ∈ l.filterMap scratchBlock) :
    Guest.scratchBase ≤ r.1 ∧ r.1 + r.2 ≤ Guest.scratchBase + Guest.scratchSize := by
  have hwithin := h.scratch.within r hr
  exact ⟨hwithin.1, hwithin.2.trans h.inside⟩

theorem Inv.in_page (h : Inv l s) {slot : Nat} (hslot : slot ∈ s.traps.keys) :
    Guest.trapBase ≤ slot ∧ slot + 4 ≤ Guest.trapBase + Guest.trapSize := by
  obtain ⟨name, hname⟩ :=
    Option.ne_none_iff_exists'.mp (mt Dict.get?_eq_none_iff.mp (not_not.mpr hslot))
  obtain ⟨k, hk, rfl⟩ := h.slot hname
  have hroom := h.room
  omega

theorem Inv.off_heap (h : Inv l s) {r b : Range} (hr : r ∈ l.filterMap scratchBlock)
    (hb : b ∈ s.heap.allocations.items) (x : Nat) : ¬ (Has r x ∧ Has b x) := by
  rintro ⟨hrx, hbx⟩
  have hwithin := h.within hr
  have hheap := (h.heap.inside_of_live ⟨b, hb, hbx⟩).1
  have horder := regions_order.2
  have hlt := hrx.2
  rw [h.base] at hheap
  omega

theorem Inv.off_words (h : Inv l s) {r : Range} {slot : Nat} (hr : r ∈ l.filterMap scratchBlock)
    (hslot : slot ∈ s.traps.keys) (x : Nat) : ¬ (Has r x ∧ Has (slot, 4) x) := by
  rintro ⟨hrx, hsx⟩
  have hwithin := h.within hr
  have hpage := h.in_page hslot
  have horder := regions_order.1
  have hle := hrx.1
  have hlt : x < slot + 4 := hsx.2
  omega

theorem Inv.separate (h : Inv l s) : Separate l s where
  aligned hg := h.held _ hg
  disjoint := h.scratch.disjoint
  inside _ := h.within
  block hg := h.held _ hg
  off_heap _ hr _ := h.off_heap hr
  off_words _ hr _ := h.off_words hr
  named hg := h.held _ hg
  same_slot {name name' slot slot'} hname hname' := by
    constructor
    · rintro rfl
      exact h.inverse.injective hname hname'
    · rintro rfl
      rw [hname] at hname'
      exact Option.some.inj hname'
  inverse := h.inverse
  in_page _ := h.in_page
  failing call {e s'} he := by
    have hraised := wp_of_error (call_spec h call) he
    exact hraised

end Separate

/-- **In every run of the three allocators** on a new session nothing is handed out twice, and a
call that fails changes nothing. -/
theorem run_separate {g g' : Guest M} {heap : Heap M}
    (hnew : HostSession.newHeap g = .ok heap g') (calls : List Call) :
    Separate (granted calls (new heap)) (after calls (new heap)) :=
  (run_inv (new_inv hnew) calls).separate

theorem run_separate_fresh :
    HostSession.newHeap { uc := (⟨[], fun _ => 0⟩ : ByteMemory.Paged) } =
      .ok HostSession.freshHeap HostSession.freshHeap.guest ∧
    Separate
      (granted [.alloc 5 4, .allocTrapSlot ['f'], .heapAlloc 8 4, .alloc 1 3, .alloc 0 16]
        (new HostSession.freshHeap))
      (after [.alloc 5 4, .allocTrapSlot ['f'], .heapAlloc 8 4, .alloc 1 3, .alloc 0 16]
        (new HostSession.freshHeap)) :=
  ⟨HostSession.newHeap_fresh, run_separate HostSession.newHeap_fresh _⟩

end AddressSpace

end Cwhost
