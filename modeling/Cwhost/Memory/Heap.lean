import Cwhost.Guest
import Cwhost.Lib.Dict

/-!
# The guest heap (`memory.py`, `Heap`)

A first-fit allocator over `[base, base + size)` with a list of free ranges and a table of live
allocations. `_Allocation` holds nothing but its size, so the table maps an address to the size
allocated there. The heap owns the guest it reads and writes when `realloc` moves a block.

Sizes, alignments and addresses are arbitrary integers: the checks of `_validate_size` and
`_validate_align` are modelled, and a negative address is never a key of the table.
-/

namespace Cwhost

open Lib

/-- `Heap`: the free ranges in the order of their addresses, and the live allocations by address. -/
structure Heap (M : ByteMemory) where
  guest : Guest M
  base : Nat
  size : Nat
  /-- `_free`. -/
  freeList : List Range
  /-- `_allocations`. -/
  allocations : Dict Nat Nat

namespace Heap

variable {M : ByteMemory}

/-- Run a guest access on the heap's guest. -/
def onGuest {α : Type} (x : EStateM Exc (Guest M) α) : EStateM Exc (Heap M) α :=
  zoom Heap.guest (fun h g => { h with guest := g }) x

/-- `Heap.__init__`. -/
def init (base size : Int) : EStateM Exc (Guest M) (Heap M) := do
  if size ≤ 0 then
    throw (.hostError s!"heap size must be positive, got {size}")
  if base < 0 ∨ base + size > 0x100000000 then
    throw (.hostError
      s!"heap range is outside PPC32 address space: {hexInt base}+{hexInt size}")
  Guest.map base.toNat size.toNat ['r', 'w']
  let g ← get
  return {
    guest := g
    base := base.toNat
    size := size.toNat
    freeList := [(base.toNat, size.toNat)]
    allocations := .empty }

/-- `_aligned`. -/
def aligned (value alignment : Nat) : Nat := (value + alignment - 1) / alignment * alignment

/-- `_validate_size`. -/
def validateSize (size : Int) : EStateM Exc (Heap M) Unit :=
  if size < 0 then throw (.hostError s!"invalid allocation size {size}") else pure ()

/-- `_validate_align`. -/
def validateAlign (align : Int) : EStateM Exc (Heap M) Unit :=
  if align ≤ 0 then throw (.hostError s!"invalid allocation alignment {align}") else pure ()

/-- The loop of `alloc`: the first free range that holds `amount` aligned bytes, and the free
list with those bytes taken out of it. -/
def firstFit (amount align : Nat) : List Range → Option (Nat × List Range)
  | [] => none
  | (start, available) :: rest =>
    let address := aligned start align
    let lead := address - start
    if available < lead + amount then
      (firstFit amount align rest).map fun r => (r.1, (start, available) :: r.2)
    else
      let suffix := available - lead - amount
      let replacement :=
        (if lead ≠ 0 then [(start, lead)] else []) ++
          if suffix ≠ 0 then [(address + amount, suffix)] else []
      some (address, replacement ++ rest)

/-- `alloc`. -/
def alloc (size align : Int) : EStateM Exc (Heap M) Nat := do
  validateSize size
  validateAlign align
  let amount := max size.toNat 1
  let h ← get
  match firstFit amount align.toNat h.freeList with
  | some (address, freeList) =>
    set { h with freeList := freeList, allocations := h.allocations.set address amount }
    return address
  | none => throw (.hostError s!"guest heap exhausted allocating {size} bytes")

/-- The error of `_allocation` and of `free`. -/
def invalidAddress (address : Int) : Exc :=
  .hostError s!"invalid or already freed heap address {hexInt address}"

/-- `_allocation`. -/
def allocation (address : Int) : EStateM Exc (Heap M) Nat := do
  let h ← get
  match h.allocations.find? address with
  | some size => return size
  | none => throw (invalidAddress address)

/-- `_insert_free`. -/
def insertFree (start amount : Nat) : EStateM Exc (Heap M) Unit :=
  if amount = 0 then pure ()
  else modify fun h => { h with freeList := insertRange h.freeList (start, amount) }

/-- `free`. -/
def free (address : Int) : EStateM Exc (Heap M) Unit := do
  let h ← get
  match h.allocations.find? address with
  | some size =>
    set { h with allocations := h.allocations.erase address.toNat }
    insertFree address.toNat size
  | none => throw (invalidAddress address)

/-- `_shrink`. -/
def shrink (address size amount : Nat) : EStateM Exc (Heap M) Nat := do
  if amount < size then
    insertFree (address + amount) (size - amount)
  modify fun h => { h with allocations := h.allocations.set address amount }
  return address

/-- The free list with the first `extra` bytes of its range at index `i` taken. -/
def takeFront (freeList : List Range) (i extra : Nat) : Option (List Range) :=
  match freeList[i]? with
  | none => none
  | some (start, available) =>
    if available < extra then none
    else if available = extra then some (freeList.eraseIdx i)
    else some (freeList.set i (start + extra, available - extra))

/-- `_grow_in_place`. -/
def growInPlace (address size amount : Nat) : EStateM Exc (Heap M) Bool := do
  let extra := amount - size
  if extra = 0 then
    return true
  let h ← get
  match h.freeList.findIdx? fun r => decide (r.1 = address + size) with
  | none => return false
  | some i =>
    match takeFront h.freeList i extra with
    | none => return false
    | some freeList =>
      set { h with freeList := freeList, allocations := h.allocations.set address amount }
      return true

/-- `realloc`. -/
def realloc (address size : Int) (allowMove : Bool) : EStateM Exc (Heap M) Nat := do
  validateSize size
  let old ← allocation address
  let amount := max size.toNat 1
  if amount ≤ old then
    shrink address.toNat old amount
  else
    let grown ← growInPlace address.toNat old amount
    if grown then
      return address.toNat
    if ¬ allowMove then
      throw (.hostError s!"cannot grow locked heap block at {hexInt address}")
    let newAddress ← alloc size 16
    let copySize := min old amount
    if copySize ≠ 0 then
      let data ← onGuest (Guest.read address.toNat copySize)
      onGuest (Guest.write newAddress data)
    free address
    return newAddress

/-- `free_bytes`. -/
def freeBytes (h : Heap M) : Nat := (h.freeList.map Prod.snd).sum

end Heap

end Cwhost
