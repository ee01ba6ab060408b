import Cwhost.Guest.Machine
import Cwhost.Lib.Along
import Cwhost.Lib.Stores
import Cwhost.Pef.ContainerLayout
import Cwhost.Pef.Descriptors

/-!
# Binding the plug-in's imports (`session.py`, `load`; `guest.py`, `on_trap`)

Every shim of the host gets a trap slot and its handler before the plug-in is loaded, and the loader
puts the slots into the import descriptors. A call through a descriptor enters the slot, and the
machine looks up the handler by the slot's name.

* `bindTable`: the loop over the shims; `Bound`: what it leaves. `linkPlugin`: with the loader.
* `Serves.trapHook_eq`, `Serves.serveTrap_eq`: what the machine does at a slot.
* `linkPlugin_serves`: **a call of an import runs the shim of its name**; a weak import without a
  shim has no code.

Premises: a memory that refuses to map a range twice and to write what is not mapped (`Strict`), as
the emulator does.
-/

namespace Cwhost.Machine

open Lib Pef

variable {M : ByteMemory} {H : Type}

/-- An entry of a table of shims. -/
structure Shim where
  handler : Nat
  /-- `_cwhost_inline_trap`. -/
  inline : Bool

/-- `on_trap`. -/
def onTrap (name : Str) (shim : Shim) : Run M H Unit :=
  modifyWorld fun w => { w with
    handlers := w.handlers.set name shim.handler
    inlineHandlers :=
      if shim.inline then
        if name ∈ w.inlineHandlers then w.inlineHandlers else w.inlineHandlers ++ [name]
      else w.inlineHandlers.filter fun other => other ≠ name }

/-- `{**carbon.TABLE, **pluginlib.TABLE}`. -/
def mergeTables (carbon pluginlib : Dict Str Shim) : Dict Str Shim :=
  pluginlib.items.foldl (fun d e => d.set e.1 e.2) carbon

/-- The loop of `load` over the shims, with `_slots`. -/
def bindTable : List (Str × Shim) → Dict Str Nat → Run M H (Dict Str Nat)
  | [], slots => return slots
  | (name, shim) :: rest, slots => do
    let slot ← allocTrapSlot name
    onTrap name shim
    bindTable rest (slots.set name slot.toNat)

/-- `load`, from the two tables to the loaded fragment. -/
def linkPlugin (carbon pluginlib : Dict Str Shim) (container : List UInt8) :
    Run M H Fragment := do
  let slots ← bindTable (mergeTables carbon pluginlib).items .empty
  onMemory (Pef.load container slots)

/-! ## What the machine does at a slot -/

/-- The slot is that of the shim. -/
structure Serves (w : World M H) (name : Str) (shim : Shim) (slot : BitVec 32) : Prop where
  trap : w.traps.get? slot = some name
  handler : w.handlers.get? name = some shim.handler
  inline : name ∈ w.inlineHandlers ↔ shim.inline = true

section Serves

variable {m : Machine M H} {name : Str} {shim : Shim} {slot : BitVec 32}

/-- **At the slot** an inline shim runs at once, unless there is a trace. Every other one stops the
emulation first. -/
theorem Serves.trapHook_eq (h : Serves m.world name shim slot) (em : Emulator M H)
    (callee : CallFn M H) (inner : Option Int) :
    trapHook em callee inner slot m =
      (if m.world.trace.isNone ∧ shim.inline = true then do
        runHandler em callee inner shim.handler
        return false
      else do
        modifyWorld fun w => { w with pending := some slot }
        return true : Run M H Bool) m := by
  rw [trapHook, bind_of_ok (get_eq m)]
  simp only [h.trap]
  cases htrace : m.world.trace with
  | some l => rw [if_neg (by simp)]
  | none =>
    by_cases hinline : shim.inline = true
    · rw [if_pos ⟨rfl, hinline⟩, Option.filter_some,
        if_pos (decide_eq_true (h.inline.mpr hinline))]
      simp only [h.handler]
    · rw [if_neg fun h' => hinline h'.2, Option.filter_some,
        if_neg (by simpa using fun h' => hinline (h.inline.mp h'))]

/-- **Once the emulation has stopped there** the shim runs. -/
theorem Serves.serveTrap_eq (h : Serves m.world name shim slot) (em : Emulator M H)
    (callee : CallFn M H) (inner : Option Int) {stop : Option (BitVec 32)}
    (hstop : stop ≠ some slot) :
    serveTrap em callee inner stop slot m =
      (do
        traceEntry name slot m.world.regs.lr
        runHandler em callee inner shim.handler
        traceResult
        resumeAt stop m.world.regs.lr : Run M H (Option (BitVec 32))) m := by
  rw [serveTrap, if_neg hstop, bind_of_ok (get_eq m)]
  simp only [h.trap, h.handler]

end Serves

/-! ## The loop over the shims -/

/-- The trap slots and their names belong together. -/
structure Slots (w : World M H) : Prop where
  inverse : w.traps.Inverse w.trapAddresses
  slot : ∀ {slot name}, w.traps.get? slot = some name →
    ∃ k < w.trapNext, slot = BitVec.ofNat 32 (Guest.trapBase + k * 4)
  room : w.trapNext ≤ Guest.trapSize / 4

/-- The slot of the name is there, and the memory is mapped as before. -/
structure Allotted (m m' : Machine M H) (name : Str) (slot : BitVec 32) : Prop where
  slots : Slots m'.world
  trap : m'.world.traps.get? slot = some name
  others : ∀ {other name'}, m.world.traps.get? other = some name' →
    m'.world.traps.get? other = some name'
  handlers : m'.world.handlers = m.world.handlers
  inline : m'.world.inlineHandlers = m.world.inlineHandlers
  mapped : ∀ x, M.mapped m'.world.guest.uc x ↔ M.mapped m.world.guest.uc x

theorem slot_inj {k n : Nat} (hk : k < Guest.trapSize / 4) (hn : n < Guest.trapSize / 4)
    (h : BitVec.ofNat 32 (Guest.trapBase + k * 4) = BitVec.ofNat 32 (Guest.trapBase + n * 4)) : k = n := by
  have hlt : Guest.trapBase + Guest.trapSize / 4 * 4 < 2 ^ 32 := by decide
  have h := congrArg BitVec.toNat h
  rw [BitVec.toNat_ofNat, BitVec.toNat_ofNat, Nat.mod_eq_of_lt (by omega),
    Nat.mod_eq_of_lt (by omega)] at h
  omega

theorem Slots.allotted {m : Machine M H} (h : Slots m.world) {name : Str}
    (hname : m.world.trapAddresses.get? name = none) (hroom : m.world.trapNext < Guest.trapSize / 4)
    {g : Guest M} (hmapped : ∀ x, M.mapped g.uc x ↔ M.mapped m.world.guest.uc x) :
    Allotted m { m with world := { m.world with
        guest := g
        trapNext := m.world.trapNext + 1
        traps := m.world.traps.set (BitVec.ofNat 32 (Guest.trapBase + m.world.trapNext * 4)) name
        trapAddresses :=
          m.world.trapAddresses.set name (BitVec.ofNat 32 (Guest.trapBase + m.world.trapNext * 4)) } }
      name (BitVec.ofNat 32 (Guest.trapBase + m.world.trapNext * 4)) := by
  have hfresh : m.world.traps.get? (BitVec.ofNat 32 (Guest.trapBase + m.world.trapNext * 4)) = none := by
    cases hget : m.world.traps.get? (BitVec.ofNat 32 (Guest.trapBase + m.world.trapNext * 4)) with
    | none => rfl
    | some other =>
      obtain ⟨k, hk, heq⟩ := h.slot hget
      exact absurd (slot_inj hroom (by omega) heq) (by omega)
  constructor
  · refine ⟨h.inverse.set hfresh hname, fun {slot name'} hget => ?_, hroom⟩
    rw [Dict.get?_set] at hget
    split at hget
    · exact ⟨m.world.trapNext, Nat.lt_succ_self _, ‹_›⟩
    · obtain ⟨k, hk, heq⟩ := h.slot hget
      exact ⟨k, Nat.lt_succ_of_lt hk, heq⟩
  · exact Dict.get?_set_self _ _ _
  · intro other name' hother
    refine (Dict.get?_set_of_ne _ _ ?_).trans hother
    rintro rfl
    rw [hfresh] at hother
    cases hother
  · rfl
  · rfl
  · exact hmapped

/-- **`alloc_trap_slot`**, when it returns. -/
theorem allocTrapSlot_allotted {m : Machine M H} (h : Slots m.world) (name : Str) :
    wp (allocTrapSlot name) (fun slot m' => Allotted m m' name slot) (fun _ _ => True) m := by
  simp only [allocTrapSlot, wp_bind, wp_get]
  cases hname : m.world.trapAddresses.get? name with
  | some slot =>
    exact ⟨h, (h.inverse _ _).mpr hname, fun h => h, rfl, rfl, fun _ => Iff.rfl⟩
  | none =>
    simp only [wp_bind, wp_ite, raise_, wp_throw, modifyWorld, wp_modify, wp_pure, onMemory,
      wp_mapError, wp_zoom]
    refine ⟨fun _ => trivial, fun hroom => ?_⟩
    refine wp_mono (Guest.write_mapped _ _ _) (fun _ g hg => ?_) fun _ _ _ => trivial
    exact h.allotted hname (not_le.mp hroom) hg

/-- **What the loop leaves** for the shims it has come to. -/
structure Bound (w : World M H) (slots : Dict Str Nat) (done : List (Str × Shim)) : Prop where
  table : Slots w
  serves : ∀ e ∈ done, ∃ slot : BitVec 32, slots.get? e.1 = some slot.toNat ∧ Serves w e.1 e.2 slot
  only : ∀ name, slots.get? name ≠ none → name ∈ done.map Prod.fst

theorem mem_inline (l : List Str) (name q : Str) (inline : Bool) :
    q ∈ (if inline then if name ∈ l then l else l ++ [name]
      else l.filter fun other => other ≠ name : List Str) ↔
        if q = name then inline = true else q ∈ l := by
  by_cases hq : q = name
  · subst hq
    cases inline with
    | true => by_cases hmem : q ∈ l <;> simp [hmem]
    | false => simp
  · cases inline with
    | true => by_cases hmem : name ∈ l <;> simp [hmem, hq]
    | false => simp [hq]

/-- One shim. -/
theorem Bound.step {m m' : Machine M H} {slots : Dict Str Nat} {done : List (Str × Shim)}
    (h : Bound m.world slots done) {name : Str} {shim : Shim} {slot : BitVec 32}
    (hnew : name ∉ done.map Prod.fst) (ha : Allotted m m' name slot) :
    wp (onTrap name shim) (fun _ m'' =>
      Bound m''.world (slots.set name slot.toNat) (done ++ [(name, shim)]) ∧
        m''.world.guest = m'.world.guest) (fun _ _ => False) m' := by
  refine ⟨⟨⟨ha.slots.inverse, ha.slots.slot, ha.slots.room⟩, fun e he => ?_, fun q hq => ?_⟩, rfl⟩
  · rcases List.mem_append.mp he with he | he
    · obtain ⟨other, hslot, hserves⟩ := h.serves e he
      have hne : e.1 ≠ name := fun heq => hnew (heq ▸ List.mem_map_of_mem he)
      refine ⟨other, (Dict.get?_set_of_ne _ _ hne).trans hslot, ha.others hserves.trap, ?_, ?_⟩
      · exact (Dict.get?_set_of_ne _ _ hne).trans (ha.handlers ▸ hserves.handler)
      · refine (mem_inline _ _ _ _).trans ?_
        rw [if_neg hne, ha.inline]
        exact hserves.inline
    · rw [List.mem_singleton.mp he]
      refine ⟨slot, Dict.get?_set_self _ _ _, ha.trap, Dict.get?_set_self _ _ _, ?_⟩
      refine (mem_inline _ _ _ _).trans ?_
      rw [if_pos rfl]
  · rw [List.map_append, List.mem_append]
    by_cases heq : q = name
    · exact Or.inr (by simp [heq])
    · rw [Dict.get?_set_of_ne _ _ heq] at hq
      exact Or.inl (h.only q hq)

/-- **The whole loop**: every shim has its slot, and nothing else has one. -/
theorem bindTable_bound {m : Machine M H} {slots : Dict Str Nat} (rest : List (Str × Shim))
    {done : List (Str × Shim)} (h : Bound m.world slots done)
    (hnd : ((done ++ rest).map Prod.fst).Nodup) :
    wp (bindTable rest slots) (fun slots' m' => Bound m'.world slots' (done ++ rest) ∧
      ∀ x, M.mapped m'.world.guest.uc x ↔ M.mapped m.world.guest.uc x) (fun _ _ => True) m := by
  induction rest generalizing done slots m with
  | nil =>
    rw [List.append_nil]
    exact ⟨h, fun _ => Iff.rfl⟩
  | cons e rest ih =>
    obtain ⟨name, shim⟩ := e
    rw [List.append_cons] at hnd ⊢
    have hnew : name ∉ done.map Prod.fst := by
      rw [List.append_assoc, List.map_append, List.nodup_append] at hnd
      exact fun hmem => hnd.2.2 _ hmem name (by simp) rfl
    rw [bindTable, wp_bind]
    refine wp_mono (allocTrapSlot_allotted h.table name) (fun slot m₁ ha => ?_) fun _ _ h => h
    rw [wp_bind]
    refine wp_mono (h.step hnew ha) (fun _ m₂ hb => ?_) fun _ _ h => h.elim
    refine wp_mono (ih hb.1 hnd) (fun slots' m₃ h₃ => ⟨h₃.1, fun x => ?_⟩) fun _ _ h => h
    rw [h₃.2, hb.2, ha.mapped]

/-! ## The tables -/

/-- A shim of `pluginlib` takes the place of one of `carbon` with its name. -/
theorem get?_mergeTables (carbon pluginlib : Dict Str Shim) (name : Str) :
    (mergeTables carbon pluginlib).get? name =
      (pluginlib.get? name).or (carbon.get? name) :=
  Dict.get?_foldl_set pluginlib.nodup carbon name

/-! ## The whole of `load` -/

/-- The words of a descriptor. -/
theorem words_of_bytes {g : Guest M} {a slot : Nat} (hslot : slot < 2 ^ 32)
    (h : ByteMemory.bytes g.uc a 8 = toBE 4 slot ++ toBE 4 0) :
    g.word a = slot ∧ g.word (a + 4) = 0 := by
  have hcode := slice_bytes g.uc a (show 0 + 4 ≤ 8 by decide)
  have htoc := slice_bytes g.uc a (show 4 + 4 ≤ 8 by decide)
  rw [h] at hcode htoc
  constructor
  · show beNat (ByteMemory.bytes g.uc (a + 0) 4) = slot
    rw [← hcode, slice, List.drop_zero, List.take_left' (toBE_length 4 slot)]
    exact beNat_toBE_of_lt hslot
  · show beNat (ByteMemory.bytes g.uc (a + 4) 4) = 0
    rw [← htoc, slice, List.drop_left' (toBE_length 4 slot)]
    rfl

/-- What the machine does at the slot: an inline shim runs at once, unless there is a trace; every
other one once the emulation has stopped. -/
def RunsShim (m : Machine M H) (name : Str) (shim : Shim) (slot : BitVec 32) : Prop :=
  ∀ em callee inner,
    trapHook em callee inner slot m =
      (if m.world.trace.isNone ∧ shim.inline = true then do
        runHandler em callee inner shim.handler
        return false
      else do
        modifyWorld fun w => { w with pending := some slot }
        return true : Run M H Bool) m ∧
    ∀ stop, stop ≠ some slot → serveTrap em callee inner stop slot m =
      (do
        traceEntry name slot m.world.regs.lr
        runHandler em callee inner shim.handler
        traceResult
        resumeAt stop m.world.regs.lr : Run M H (Option (BitVec 32))) m

theorem onMemory_eq_ok {α : Type} {x : EStateM Exc (Guest M) α} {a : α} {m m' : Machine M H}
    (h : onMemory x m = .ok a m') :
    ∃ g, x m.world.guest = .ok a g ∧ m' = { m with world := { m.world with guest := g } } := by
  have hspec : wp (onMemory x) (fun a m' => ∃ g, x m.world.guest = .ok a g ∧
      m' = { m with world := { m.world with guest := g } }) (fun _ _ => True) m := by
    simp only [onMemory, wp_mapError, wp_zoom]
    exact wp_mono (wp_self x m.world.guest) (fun _ g hg => ⟨g, hg, rfl⟩) fun _ _ _ => trivial
  exact wp_of_ok hspec h

/-- What is loaded was accepted. -/
theorem init_of_load {container : List UInt8} {imports : Dict Str Nat} {f : Fragment}
    {g g' : Guest M} (h : Pef.load container imports g = .ok f g') :
    ∃ p, PEF.init container = .ok p := by
  cases hinit : PEF.init container with
  | ok p => exact ⟨p, rfl⟩
  | error e =>
    rw [Pef.load, hinit] at h
    cases h

/-- **A call of an import runs the shim of its name**: after `load` the descriptor of every import
holds the slot at which the machine runs the shim registered for the import's name, that of
`pluginlib` if both tables have one. Without a shim the import is weak and its code pointer is 0.
`import_descriptor` answers the first descriptor of the name. -/
theorem linkPlugin_serves (hM : M.Strict) {carbon pluginlib : Dict Str Shim}
    {container : List UInt8} {m m' : Machine M H} {f : Fragment} (hslots : Slots m.world)
    (hscratch : ByteMemory.MappedRange m.world.guest.uc Guest.scratchBase Guest.scratchSize)
    (hlink : linkPlugin carbon pluginlib container m = .ok f m') {i : Nat} {item : Import}
    (hitem : f.pef.imports[i]? = some item) :
    (match (pluginlib.get? item.name).or (carbon.get? item.name) with
      | some shim => ∃ slot : BitVec 32, m'.world.guest.word (descriptorAt i) = slot.toNat ∧
        RunsShim m' item.name shim slot
      | none => item.weak = true ∧ m'.world.guest.word (descriptorAt i) = 0) ∧
    m'.world.guest.word (descriptorAt i + 4) = 0 ∧
    f.importDescriptor item.name =
      .ok (descriptorAt (f.pef.imports.findIdx fun other => other.name = item.name)) := by
  obtain ⟨slots, m₁, hbind, hmemory⟩ := exists_of_bind_ok hlink
  have hempty : Bound m.world .empty [] :=
    ⟨hslots, fun e he => absurd he List.not_mem_nil, fun name h => absurd (Dict.get?_empty name) h⟩
  have htable := bindTable_bound _ hempty (mergeTables carbon pluginlib).nodup
  obtain ⟨hbound, hmapped⟩ := wp_of_ok htable hbind
  obtain ⟨g, hload, rfl⟩ := onMemory_eq_ok hmemory
  obtain ⟨p, hinit⟩ := init_of_load hload
  obtain ⟨rfl, hd⟩ := load_descriptors hM hinit (fun x h1 h2 => (hmapped x).mpr (hscratch x h1 h2))
    hload
  have hmem := List.mem_of_getElem? hitem
  obtain ⟨hcode, htoc⟩ := words_of_bytes (hd.slots item hmem) (hd.words i item hitem)
  refine ⟨?_, htoc, ?_⟩
  · rw [← get?_mergeTables]
    cases hget : (mergeTables carbon pluginlib).get? item.name with
    | some shim =>
      obtain ⟨slot, hslot, hserves⟩ := hbound.serves _ (Dict.get?_eq_some_iff.mp hget)
      refine ⟨slot, hcode.trans (by rw [slotOf, hslot]; rfl), ?_⟩
      have hserves' : Serves { m₁.world with guest := g } item.name shim slot :=
        ⟨hserves.trap, hserves.handler, hserves.inline⟩
      exact fun em callee inner =>
        ⟨hserves'.trapHook_eq em callee inner, fun stop => hserves'.serveTrap_eq em callee inner⟩
    | none =>
      have hnone : slots.get? item.name = none := by
        by_contra h
        exact Dict.get?_eq_none_iff.mp hget (hbound.only _ h)
      refine ⟨?_, hcode.trans (by rw [slotOf, hnone]; rfl)⟩
      by_contra hweak
      have hstrong := hd.bound item hmem (Bool.eq_false_iff.mpr hweak)
      rw [hnone] at hstrong
      cases hstrong
  · rw [Fragment.importDescriptor, hd.named]
    have hfound : (f.pef.imports.findIdx? fun other => other.name = item.name) =
        some (f.pef.imports.findIdx fun other => other.name = item.name) :=
      List.findIdx?_eq_some_of_exists ⟨item, hmem, decide_eq_true rfl⟩
    rw [hfound]
    rfl

/-- A machine with its trap page and its scratch region. -/
def freshMachine : Machine .paged Unit where
  world :=
    { regs := ⟨fun _ => 0, fun _ => 0, 0, 0, 0, 0, 0, 0, 0⟩
      guest :=
        ⟨(⟨[(Guest.scratchBase, Guest.scratchSize), (Guest.trapBase, Guest.trapSize)], fun _ => 0⟩ :
          ByteMemory.Paged)⟩
      trapNext := 0
      traps := .empty
      trapAddresses := .empty
      handlers := .empty
      inlineHandlers := []
      pending := none
      returnSlot := none
      trace := none
      traceSeq := 0
      traceCurrent := none
      traceFile := none
      now := 0
      host := ⟨⟩ }
  callTvectors := []
  starts := []

/-- One shim, for the one import of the small container. -/
theorem smallFile_linked :
    (okValue (linkPlugin .empty (Dict.empty.set ['i'] ⟨7, true⟩) smallFile freshMachine)).map
      (fun f => f.pef.imports) = some [⟨0, ['i'], some ['L'], true⟩] := by
  decide +kernel

theorem linkPlugin_serves_small : ∃ f m', linkPlugin .empty (Dict.empty.set ['i'] ⟨7, true⟩)
      smallFile freshMachine = .ok f m' ∧
    ∃ slot : BitVec 32, m'.world.guest.word (descriptorAt 0) = slot.toNat ∧
      RunsShim m' ['i'] ⟨7, true⟩ slot := by
  have h := smallFile_linked
  cases hlink : linkPlugin .empty (Dict.empty.set ['i'] ⟨7, true⟩) smallFile freshMachine with
  | error e m' =>
    rw [hlink] at h
    cases h
  | ok f m' =>
    rw [hlink] at h
    have himports : f.pef.imports = _ := Option.some.inj h
    have hslots : Slots freshMachine.world :=
      ⟨Dict.inverse_empty, fun {_ _} hget => (Option.some_ne_none _ hget.symm).elim, Nat.zero_le _⟩
    have hscratch : ByteMemory.MappedRange freshMachine.world.guest.uc Guest.scratchBase
        Guest.scratchSize := fun _ h1 h2 =>
      List.any_eq_true.mpr ⟨_, List.mem_cons_self, decide_eq_true ⟨h1, h2⟩⟩
    exact ⟨f, m', rfl, (linkPlugin_serves ByteMemory.paged_strict hslots hscratch hlink
      (show f.pef.imports[0]? = some ⟨0, ['i'], some ['L'], true⟩ by rw [himports]; rfl)).1⟩

end Cwhost.Machine
