import Cwhost.Lib.Along
import Cwhost.Panels
import Cwhost.Session.Request

/-!
# Preferences for the plug-in (`api.py`, `compile`; `pluginlib.py`, `CWGetNamedPreferences`)

`compile` makes the records of the panels, the session keeps them, and the plug-in asks for one by
its name and gets a `CWMemHandle` to it.

* `Holds`: a `CWMemHandle` holds bytes. `allocCwHandle_holds`: a new one holds what it was made
  for. `runEvents_holds`: it goes on holding them whatever the plug-in makes the host do, until the
  handle is freed or its memory stored to.
* `preferences_kept`: **the record of a panel reaches the plug-in** in every session over the panels
  of a compilation, and is what the handle gives in every later state of the request.

Premises of `preferences_kept`: the session's context, the name of one of the panels, and an output
pointer to four accessible bytes off the free memory of the heap; later events spare the handle and
its memory (`Callback.Spares`).
-/

namespace Cwhost

open Lib

/-! ## The records of a compilation -/

namespace CompilerPanels

/-- The prefix of `CompileOptions`, in `panel_objects`. -/
def withPrefix (p : CompilerPanels) : Option Str → CompilerPanels
  | some name => { p with compiler := { p.compiler with prefixname := name } }
  | none => p

/-- The records of the panels by their names. -/
def toBytes (fold : Str → Str) (p : CompilerPanels) :
    Except ValueError (List (Str × List UInt8)) := do
  let compiler ← p.compiler.toBytes
  let warnings ← p.warnings.toBytes
  let optimizer ← p.optimizer.toBytes fold
  let codeGen ← p.codeGen.toBytes fold
  return [("C/C++ Compiler".toList, compiler), ("C/C++ Warnings".toList, warnings),
    ("PPC Global Optimizer".toList, optimizer), ("PPC CodeGen".toList, codeGen)]

/-- `panels_bytes`. -/
def panelsBytes (fold : Str → Str) (prefixName : Option Str) (p : CompilerPanels) :
    Except ValueError (List (Str × List UInt8)) := (p.withPrefix prefixName).toBytes fold

/-- A record is found under the name of its panel. -/
theorem lookup_toBytes {fold : Str → Str} {p : CompilerPanels}
    {records : List (Str × List UInt8)} (h : p.toBytes fold = .ok records) {name : Str}
    {record : List UInt8} (hmem : (name, record) ∈ records) :
    records.lookup name = some record := by
  obtain ⟨compiler, -, h⟩ := bind_eq_ok h
  obtain ⟨warnings, -, h⟩ := bind_eq_ok h
  obtain ⟨optimizer, -, h⟩ := bind_eq_ok h
  obtain ⟨codeGen, -, h⟩ := bind_eq_ok h
  cases h
  simp only [List.mem_cons, Prod.mk.injEq, List.not_mem_nil, or_false] at hmem
  rcases hmem with ⟨rfl, rfl⟩ | ⟨rfl, rfl⟩ | ⟨rfl, rfl⟩ | ⟨rfl, rfl⟩ <;> rfl

end CompilerPanels

namespace HandleTables

variable {M : ByteMemory} {s s' : HandleTables M} {a b : Nat} {raw : List UInt8}

/-- `_cw_handle_block`. -/
def cwHandleBlock (handle : Int) : EStateM Exc (HandleTables M) Nat := do
  let item ← cwHandle handle
  return item.block

/-! ## What a handle holds -/

/-- **The `CWMemHandle` `a` holds `raw`**, in the block `b`. -/
structure Holds (s : HandleTables M) (a b : Nat) (raw : List UInt8) : Prop where
  record : ∃ requestScoped, s.cwHandles.get? a = some ⟨a, b, raw.length, requestScoped⟩
  blockWord : s.heap.guest.word a = b
  sizeWord : s.heap.guest.word (a + 4) = raw.length
  contents : ByteMemory.bytes s.heap.guest.uc b raw.length = raw

/-- The record and the block of such a handle. -/
def memory (a b : Nat) (raw : List UInt8) : List Range := [(a, 8), (b, max raw.length 1)]

/-- It holds the same while its memory is the same. -/
theorem Holds.keeps (h : Holds s a b raw) (hcw : s'.cwHandles = s.cwHandles)
    (hk : Heap.Keeps s.heap s'.heap (memory a b raw)) : Holds s' a b raw where
  record := hcw ▸ h.record
  blockWord := (hk.word_eq List.mem_cons_self (Nat.le_refl a) (by simp)).trans h.blockWord
  sizeWord :=
    (hk.word_eq List.mem_cons_self (Nat.le_add_right a 4) (Nat.le_refl _)).trans h.sizeWord
  contents := by
    have hsame := hk.bytes_eq (n := raw.length)
      (List.mem_cons_of_mem (a, 8) List.mem_cons_self) (le_max_left raw.length 1)
    exact hsame.trans h.contents

/-- An operation on other handles does not change what it holds. -/
theorem Holds.stepped {op : Op} (h : Holds s a b raw) (hst : Stepped op s s')
    (hop : ∀ c, ¬ op.onCw a c) : Holds s' a b raw := by
  obtain ⟨requestScoped, hrecord⟩ := h.record
  have hsame := hst.cw a _ hrecord (hop _)
  exact ⟨⟨requestScoped, hsame.record⟩, hsame.blockWord.trans h.blockWord,
    hsame.sizeWord.trans h.sizeWord, hsame.contents.trans h.contents⟩

theorem Holds.owned (h : Holds s a b raw) : memory a b raw ⊆ s.owned := by
  obtain ⟨requestScoped, hrecord⟩ := h.record
  exact cw_subset hrecord

theorem onGuest_of_ok {α : Type} {x : EStateM Exc (Guest M) α} {v : α}
    (h : x s.heap.guest = .ok v s.heap.guest) : onGuest x s = .ok v s := by
  rw [onGuest, onHandles, Handles.onGuest, Handles.onHeap, Heap.onGuest,
    zoom_of_ok (zoom_of_ok (zoom_of_ok h))]
  rfl

/-- The record is there and agrees with the words. -/
theorem Holds.cwHandle (hi : Inv s) (h : Holds s a b raw) :
    ∃ requestScoped,
      HandleTables.cwHandle (a : Int) s = .ok ⟨a, b, raw.length, requestScoped⟩ s := by
  obtain ⟨requestScoped, hrecord⟩ := h.record
  have hacc := hi.owns.accessible (h.owned List.mem_cons_self)
  have hword : ∀ x, a ≤ x → x + 4 ≤ a + 8 →
      HandleTables.onGuest (Guest.u32 x) s = .ok (s.heap.guest.word x) s :=
    fun _ h1 h2 => onGuest_of_ok (Guest.u32_eq (hacc.sub h1 h2))
  refine ⟨requestScoped, ?_⟩
  have hfind : s.cwHandles.find? (a : Int) = some ⟨a, b, raw.length, requestScoped⟩ :=
    (Dict.find?_natCast _ _).trans hrecord
  rw [HandleTables.cwHandle, bind_of_ok (get_eq s), hfind]
  dsimp only
  rw [Int.toNat_natCast, bind_of_ok (hword a (Nat.le_refl a) (by omega)),
    bind_of_ok (hword (a + 4) (Nat.le_add_right a 4) (Nat.le_refl _)), h.blockWord, h.sizeWord,
    if_neg (by simp)]
  rfl

/-- **`_cw_handle_block` and `_cw_handle_bytes`** give what the handle holds. -/
theorem Holds.cwHandleBlock (hi : Inv s) (h : Holds s a b raw) :
    HandleTables.cwHandleBlock (a : Int) s = .ok b s := by
  obtain ⟨requestScoped, hitem⟩ := h.cwHandle hi
  rw [HandleTables.cwHandleBlock, bind_of_ok hitem]
  rfl

theorem Holds.cwHandleBytes (hi : Inv s) (h : Holds s a b raw) :
    HandleTables.cwHandleBytes (a : Int) s = .ok raw s := by
  obtain ⟨requestScoped, hitem⟩ := h.cwHandle hi
  have hacc := hi.owns.accessible (h.owned (List.mem_cons_of_mem _ List.mem_cons_self))
  have hread := Guest.read_eq (hacc.sub (Nat.le_refl b)
    (Nat.add_le_add_left (le_max_left raw.length 1) b))
  rw [HandleTables.cwHandleBytes, bind_of_ok hitem]
  dsimp only
  rw [onGuest_of_ok hread, h.contents]

/-! ## A new handle -/

/-- What is free after an allocation was free before. -/
theorem free_of_allocated {h h' : Heap M} {p n x : Nat} (hw : Heap.WF h) (hn : 0 < n)
    (ha : Heap.Allocated h h' p n) (hx : Covers h'.freeList x) : Covers h.freeList x := by
  obtain ⟨hin, hnot⟩ := (ha.wf.covers_free_iff x).mp hx
  rw [ha.range.base, ha.range.size] at hin
  refine (hw.covers_free_iff x).mpr ⟨hin, fun hlive => hnot ?_⟩
  rw [ha.table, Dict.set_items_of_notMem _ (Dict.get?_eq_none_iff.mp (ha.get?_eq_none hw hn))]
  obtain ⟨e, he, hx⟩ := hlive
  exact ⟨e, List.mem_append_left _ he, hx⟩

/-- The two words of a new record, the block behind it being kept. -/
theorem words_spec {h : Heap M} {n size : Nat} {l : List Range}
    (ho : Heap.Owns h ((a, 8) :: (b, n) :: l)) (hs : size ≤ n) :
    wp (Guest.w32 a b >>= fun _ => Guest.w32 (a + 4) size)
      (fun _ g => Heap.Keeps h { h with guest := g } ((b, n) :: l) ∧ g.word a = b ∧
        g.word (a + 4) = size ∧ ∀ x, M.mapped g.uc x ↔ M.mapped h.guest.uc x)
      (fun _ _ => False) h.guest := by
  have hsize := record_spec ho hs
  rw [wp_bind] at hsize ⊢
  refine wp_mono (wp_and hsize (ho.w32_spec b (Nat.le_refl a) (by simp))) (fun _ g₁ h₁ => ?_)
    fun _ _ he => he.1
  obtain ⟨hsize, ⟨hw₁, -⟩, ho₁, hk₁⟩ := h₁
  refine wp_mono (wp_and hsize (ho₁.w32_spec size (Nat.le_add_right a 4) (Nat.le_refl _)))
    (fun _ g₂ h₂ => ?_) fun _ _ he => he.1
  obtain ⟨⟨-, -, hblock, hsize⟩, ⟨hw₂, -⟩, -, hk₂⟩ := h₂
  exact ⟨hk₁.trans hk₂, hblock, hsize, fun x => (hw₂.mapped x).trans (hw₁.mapped x)⟩

/-- What a new handle is. -/
structure Made (s s' : HandleTables M) (a b : Nat) (raw : List UInt8) : Prop where
  holds : Holds s' a b raw
  fresh : ∀ x, Covers (memory a b raw) x → Covers s.heap.freeList x
  mapped : ∀ x, M.mapped s'.heap.guest.uc x ↔ M.mapped s.heap.guest.uc x

/-- **`_alloc_cw_handle`** makes a handle that holds the bytes, out of free memory. -/
theorem allocCwHandle_makes (hi : Inv s) (raw : List UInt8) (requestScoped : Bool) :
    wp (allocCwHandle raw requestScoped) (fun a s' => ∃ b, Made s s' a b raw)
      (fun _ _ => True) s := by
  simp only [allocCwHandle, onGuest, onHeap, onHandles, Handles.onGuest, Handles.onHeap,
    Heap.onGuest, wp_bind, wp_ite, wp_pure, wp_zoom, wp_modify]
  refine wp_mono (hi.owns.wf.alloc_outcome 8 4 (by decide) (by decide)) (fun a h₁ ha => ?_)
    fun _ _ _ => trivial
  have ho₁ := hi.owns.allocated (by decide) ha.1
  refine wp_mono (ho₁.wf.alloc_outcome raw.length 4 (by omega) (by decide)) (fun b h₂ hb => ?_)
    fun _ _ _ => trivial
  have ho₂ := ho₁.allocated (by omega) hb.1
  rw [Int.toNat_natCast] at ho₂ hb
  have hguest : h₂.guest = s.heap.guest := hb.1.guest.trans ha.1.guest
  have hfresh : ∀ x, Covers (memory a b raw) x → Covers s.heap.freeList x := by
    rintro x ⟨r, hr, hx⟩
    rcases List.mem_cons.mp hr with rfl | hr
    · exact ha.1.fresh x hx
    · rw [List.mem_singleton.mp hr] at hx
      exact free_of_allocated hi.owns.wf (by decide) ha.1 (hb.1.fresh x hx)
  -- The words, where the block holds the bytes already.
  have hwords : ∀ g : Guest M, Heap.Owns { h₂ with guest := g }
      ((b, max raw.length 1) :: (a, 8) :: s.owned) →
      ByteMemory.bytes g.uc b raw.length = raw →
      (∀ x, M.mapped g.uc x ↔ M.mapped h₂.guest.uc x) →
      wp (Guest.w32 a b >>= fun _ => Guest.w32 (a + 4) raw.length)
        (fun _ g' => ∃ b', Made s
          { classic := ⟨{ h₂ with guest := g' }, s.classic.handles⟩,
            cwHandles := s.cwHandles.set a ⟨a, b, raw.length, requestScoped⟩ } a b' raw)
        (fun _ _ => True) g := by
    intro g ho hraw hmapped
    refine wp_mono (words_spec (ho.perm (List.Perm.swap _ _ _)) (le_max_left raw.length 1))
      (fun _ g' h => ?_) fun _ _ he => he.elim
    obtain ⟨hk, hblock, hsize, hmap⟩ := h
    have hsame := hk.bytes_eq List.mem_cons_self (le_max_left raw.length 1)
    refine ⟨b, ⟨⟨requestScoped, Dict.get?_set_self _ _ _⟩, hblock, hsize, hsame.trans hraw⟩, hfresh,
      fun x => ?_⟩
    exact (hmap x).trans ((hmapped x).trans (iff_of_eq (by rw [hguest])))
  refine ⟨fun hne => ?_, fun hempty => ?_⟩
  · refine wp_mono (ho₂.write_spec (List.length_pos_of_ne_nil hne) (Nat.le_refl b)
      (by simp only; omega)) (fun _ g₃ h₃ => ?_) fun _ _ he => he.elim
    exact (wp_bind _ _).mp (hwords g₃ h₃.2.1 h₃.1.data_eq h₃.1.mapped)
  · have hraw : raw = [] := not_not.mp hempty
    have hnone : ByteMemory.bytes h₂.guest.uc b raw.length = raw := by
      rw [hraw]
      rfl
    exact (wp_bind _ _).mp (hwords h₂.guest ho₂ hnone fun _ => Iff.rfl)

/-- Guest code that stores elsewhere. -/
theorem onGuest_holds {x : EStateM Exc (Guest M) Unit} (h : Holds s a b raw)
    (hx : wp x (fun _ g => ∀ y, Covers (memory a b raw) y → g.byte y = s.heap.guest.byte y)
      (fun _ g => ∀ y, Covers (memory a b raw) y → g.byte y = s.heap.guest.byte y)
      s.heap.guest) :
    wp (onGuest x) (fun _ s' => Holds s' a b raw) (fun _ s' => Holds s' a b raw) s := by
  simp only [onGuest, onHandles, Handles.onGuest, Handles.onHeap, Heap.onGuest, wp_zoom]
  exact wp_mono hx (fun _ _ hk => h.keeps rfl hk) fun _ _ hk => h.keeps rfl hk

end HandleTables

/-! ## What the plug-in makes the host do -/

namespace Callback

variable {M : ByteMemory}

/-- The event is not about the `CWMemHandle`, and nothing is stored in its memory. -/
def Spares (a b : Nat) (raw : List UInt8) : Callback M → Prop
  | getNamedPreferences _ _ output =>
    ∀ x, Has (output % 2 ^ 32, 4) x → ¬ Covers (HandleTables.memory a b raw) x
  | freeMemHandle _ handle => handle ≠ a
  | stores w => ∀ uc x, Covers (HandleTables.memory a b raw) x → M.byte (w.run uc) x = M.byte uc x
  | donePluginRequest .. | newHandle _ | disposeHandle _ | setHandleSize .. | hLock _ | hUnlock _
  | raises _ => True

end Callback

namespace Session

variable {M : ByteMemory} {s s' : Session M} {a b : Nat} {raw : List UInt8}

/-- Storing the result of a callback elsewhere. -/
theorem output_holds {output value : Nat} (h : s.tables.Holds a b raw)
    (hout : ∀ x, Has (output % 2 ^ 32, 4) x → ¬ Covers (HandleTables.memory a b raw) x) :
    wp (onTables (HandleTables.onGuest (Guest.w32 output value)))
      (fun _ s' => s'.tables.Holds a b raw) (fun _ s' => s'.tables.Holds a b raw) s := by
  refine wp_mono (onTables_spec (HandleTables.onGuest_holds h ?_)) (fun _ _ h => h.1)
    fun _ _ h => h.1
  refine wp_mono (Guest.write_any _ _ _) (fun _ g hw y hy => ?_) fun _ g he y _ => by rw [he]
  refine hw.frame y fun hat => ?_
  rw [toBE_length] at hat
  exact hout y hat hy

/-- An operation on other handles. -/
theorem op_holds (hi : s.tables.Inv) (h : s.tables.Holds a b raw) (op : HandleTables.Op)
    (hop : ∀ c, ¬ op.onCw a c) :
    wp (onTables op.call) (fun _ s' => s'.tables.Holds a b raw)
      (fun _ s' => s'.tables.Holds a b raw) s :=
  wp_mono (onTables_spec (HandleTables.call_spec hi op)) (fun _ _ hs => h.stepped hs.1 hop)
    fun _ _ hs => h.stepped hs.1.2 hop

/-- **One event** that spares the handle. -/
theorem call_holds (hi : s.tables.Inv) (h : s.tables.Holds a b raw) {event : Callback M}
    (hspare : event.Spares a b raw) :
    wp event.call (fun _ s' => s'.tables.Holds a b raw) (fun _ s' => s'.tables.Holds a b raw)
      s := by
  cases event with
  | donePluginRequest context result =>
    simp only [Callback.call, cwDonePluginRequest, doneRequest, wp_bind, wp_get, wp_ite, wp_throw,
      wp_set]
    exact checkContext_wp (fun _ => ⟨fun _ => h, fun _ => h⟩) fun _ => h
  | getNamedPreferences context name output =>
    simp only [Callback.call, cwGetNamedPreferences, wp_bind, wp_get]
    refine checkContext_wp (fun _ => ?_) fun _ => h
    cases hl : s.panels.lookup name with
    | none => exact h
    | some data =>
      simp only [wp_bind]
      refine wp_mono (onTables_spec (HandleTables.allocCwHandle_spec hi data true))
        (fun handle s₁ h₁ => ?_) fun _ s₁ h₁ => ?_
      · exact output_holds (h.stepped (HandleTables.allocCw_stepped hi h₁.1) fun _ => id) hspare
      · exact h.stepped (h₁.1.2.stepped hi (.allocCwHandle data true)) fun _ => id
  | freeMemHandle context handle =>
    simp only [Callback.call, cwFreeMemHandle, wp_bind]
    refine checkContext_wp (fun _ => op_holds hi h (.freeCwHandle handle) fun c heq => ?_)
      fun _ => h
    exact hspare (Int.ofNat_inj.mp heq).symm
  | newHandle size => exact op_holds hi h _ fun _ => id
  | disposeHandle handle => exact op_holds hi h _ fun _ => id
  | setHandleSize handle size => exact op_holds hi h _ fun _ => id
  | hLock handle => exact op_holds hi h _ fun _ => id
  | hUnlock handle => exact op_holds hi h _ fun _ => id
  | stores w =>
    rw [Callback.call, guestStores]
    refine wp_mono (onTables_spec (HandleTables.onGuest_holds h ?_)) (fun _ _ h => h.1)
      fun _ _ h => h.1
    exact fun y hy => hspare _ y hy
  | raises e => exact h

/-- **Any number of them**, with the ownership of the heap. -/
theorem runEvents_holds (events : List (Callback M)) {s : Session M} (hi : s.tables.Inv)
    (h : s.tables.Holds a b raw) (hspare : ∀ event ∈ events, event.Spares a b raw) :
    wp (runEvents events) (fun _ s' => s'.tables.Inv ∧ s'.tables.Holds a b raw)
      (fun _ s' => s'.tables.Inv ∧ s'.tables.Holds a b raw) s := by
  induction events generalizing s with
  | nil => exact ⟨hi, h⟩
  | cons event events ih =>
    rw [runEvents, wp_bind]
    obtain ⟨hevent, hrest⟩ := List.forall_mem_cons.mp hspare
    exact wp_mono (wp_and (call_inv hi event) (call_holds hi h hevent))
      (fun _ _ h => ih h.1 h.2 hrest) fun _ _ h => h

/-! ## What no request changes -/

/-- The panels and the context are the same. -/
def SamePanels (s s' : Session M) : Prop := s'.panels = s.panels ∧ s'.ctxPtr = s.ctxPtr

theorem samePanels_steps : Steps (SamePanels (M := M)) where
  refl _ := ⟨rfl, rfl⟩
  trans h h' := ⟨h'.1.trans h.1, h'.2.trans h.2⟩

theorem onTables_samePanels {α : Type} (x : EStateM Exc (HandleTables M) α) :
    Along SamePanels (onTables x) := .zoom fun _ _ => ⟨rfl, rfl⟩

theorem checkContext_samePanels (context : Nat) :
    Along (SamePanels (M := M)) (checkContext context) :=
  .bind samePanels_steps (.get samePanels_steps) fun _ =>
    .ite (.throw samePanels_steps _) (.pure samePanels_steps _)

theorem call_samePanels (event : Callback M) : Along SamePanels event.call := by
  have hthen : ∀ {x : EStateM Exc (Session M) Unit} (context : Nat), Along SamePanels x →
      Along SamePanels (checkContext context >>= fun _ => x) :=
    fun context hx => .bind samePanels_steps (checkContext_samePanels context) fun _ => hx
  cases event with
  | donePluginRequest context result =>
    refine hthen context (.of_wp fun s => ?_)
    simp only [doneRequest, wp_bind, wp_get, wp_ite, wp_throw, wp_set]
    exact ⟨fun _ => ⟨rfl, rfl⟩, fun _ => ⟨rfl, rfl⟩⟩
  | getNamedPreferences context name output =>
    refine hthen context (.bind samePanels_steps (.get samePanels_steps) fun s => ?_)
    cases s.panels.lookup name with
    | none => exact .throw samePanels_steps _
    | some data =>
      exact .bind samePanels_steps (onTables_samePanels _) fun _ => onTables_samePanels _
  | freeMemHandle context handle => exact hthen context (onTables_samePanels _)
  | newHandle size => exact onTables_samePanels _
  | disposeHandle handle => exact onTables_samePanels _
  | setHandleSize handle size => exact onTables_samePanels _
  | hLock handle => exact onTables_samePanels _
  | hUnlock handle => exact onTables_samePanels _
  | stores w =>
    rw [Callback.call, guestStores]
    exact onTables_samePanels _
  | raises e => exact .throw samePanels_steps e

theorem runEvents_samePanels (events : List (Callback M)) :
    Along SamePanels (runEvents events) := by
  induction events with
  | nil => exact .pure samePanels_steps _
  | cons event events ih => exact .bind samePanels_steps (call_samePanels event) fun _ => ih

theorem guestCall_samePanels (b : MainRun M) : Along SamePanels (guestCall b) := by
  refine .bind samePanels_steps (runEvents_samePanels b.events) fun _ => ?_
  cases b.ending with
  | ok result => exact .pure samePanels_steps _
  | error e => exact .throw samePanels_steps _

theorem request_samePanels (code : Int) (b : MainRun M) : Along SamePanels (request code b) := by
  refine .bind samePanels_steps (.get samePanels_steps) fun s => ?_
  cases s.fragment with
  | none => exact .throw samePanels_steps _
  | some fragment =>
    cases s.ctxPtr with
    | none => exact .throw samePanels_steps _
    | some ctx =>
      refine .ite (fun s => samePanels_steps.refl s)
        (.bind samePanels_steps (.modify fun _ => ⟨rfl, rfl⟩) fun _ => ?_)
      have hmain : Along (SamePanels (M := M)) (mainTvector fragment) := by
        unfold mainTvector
        cases fragment.mainEntry with
        | none => exact .throw samePanels_steps _
        | some tvector => exact .pure samePanels_steps _
      refine .bind samePanels_steps hmain fun _ =>
        .bind samePanels_steps (guestCall_samePanels b) fun result =>
          .bind samePanels_steps (.get samePanels_steps) fun t => ?_
      refine .ite (fun s => samePanels_steps.refl s)
        (.bind samePanels_steps (onTables_samePanels _) fun _ => ?_)
      exact .bind samePanels_steps (.modify fun _ => ⟨rfl, rfl⟩) fun _ => .pure samePanels_steps _

/-- **The panels of a session** are those it was made with. -/
theorem History.panels {heap : Heap M} {panels : List (Str × List UInt8)}
    (hh : History heap panels s) : s.panels = panels := by
  induction hh with
  | new => rfl
  | context c _ _ ih => exact ih
  | load f _ _ ih => exact ih
  | callback event _ ih => exact (call_samePanels event _).1.trans ih
  | request code b _ ih => exact (request_samePanels code b _).1.trans ih

/-! ## A panel's record -/

/-- `CWLockMemHandle`. -/
def cwLockMemHandle (context handle output : Nat) : EStateM Exc (Session M) Unit := do
  checkContext context
  let block ← onTables (HandleTables.cwHandleBlock handle)
  onTables (HandleTables.onGuest (Guest.w32 output block))

/-- **The plug-in can read the record**: the host reads it off the handle, and a locked handle is a
pointer to it. -/
structure Serves (s : Session M) (ctx a b : Nat) (record : List UInt8) : Prop where
  bytes : onTables (HandleTables.cwHandleBytes (a : Int)) s = .ok record s
  locks : ∀ output, s.tables.heap.guest.Accessible output 4 →
    (∀ x, Has (output, 4) x → ¬ Covers (HandleTables.memory a b record) x) →
    wp (cwLockMemHandle ctx a output)
      (fun _ s' => s'.tables.heap.guest.word output = b ∧
        ByteMemory.bytes s'.tables.heap.guest.uc b record.length = record)
      (fun _ _ => False) s

theorem serves_of_holds {ctx : Nat} (hi : s.tables.Inv) (h : s.tables.Holds a b raw)
    (hctx : s.ctxPtr = some ctx) : Serves s ctx a b raw where
  bytes := by
    rw [onTables, zoom_of_ok (h.cwHandleBytes hi)]
  locks output hout hapart := by
    have hcheck : checkContext ctx s = .ok () s := by
      rw [checkContext, bind_of_ok (get_eq s), hctx, if_neg (by simp)]
      rfl
    have hblock : onTables (HandleTables.cwHandleBlock (a : Int)) s = .ok b s := by
      rw [onTables, zoom_of_ok (h.cwHandleBlock hi)]
    have hmod := hi.owns.mod_eq (h.owned (List.mem_cons_of_mem _ List.mem_cons_self))
    rw [cwLockMemHandle, wp_bind, wp_iff_of_ok hcheck, wp_bind, wp_iff_of_ok hblock]
    simp only [onTables, HandleTables.onGuest, HandleTables.onHandles, Handles.onGuest,
      Handles.onHeap, Heap.onGuest, wp_zoom]
    refine wp_mono (Guest.w32_spec hout) (fun _ g hw => ?_) fun _ _ he => he
    refine ⟨hw.2.trans hmod, ?_⟩
    have hk : Heap.Keeps s.tables.heap { s.tables.heap with guest := g }
        (HandleTables.memory a b raw) := by
      intro y hy
      refine hw.1.frame y fun hat => ?_
      rw [toBE_length] at hat
      exact hapart y hat hy
    exact (hk.bytes_eq (List.mem_cons_of_mem _ List.mem_cons_self)
      (le_max_left raw.length 1)).trans h.contents

/-- **The record of a panel reaches the plug-in.** In every session over the panels of a
compilation, whatever has happened in it, `CWGetNamedPreferences` fails for want of memory or hands
out a handle to the record of the panel. After any further callbacks and stores that do not free
this handle and do not write to its memory, the handle still gives the record, to the host and to
the plug-in that locks it. -/
theorem preferences_kept {base size : Int} {g g' : Guest M} {heap : Heap M}
    (hinit : Heap.init base size g = .ok heap g') {fold : Str → Str} {p : CompilerPanels}
    {prefixName : Option Str} {records : List (Str × List UInt8)}
    (hrecords : p.panelsBytes fold prefixName = .ok records) (hh : History heap records s)
    {ctx output : Nat} {name : Str} {record : List UInt8} (hctx : s.ctxPtr = some ctx)
    (hmem : (name, record) ∈ records) (hout : s.tables.heap.guest.Accessible output 4)
    (hapart : ∀ x, Has (output, 4) x → ¬ Covers s.tables.heap.freeList x) :
    wp (Callback.getNamedPreferences ctx name output).call
      (fun _ s₁ => ∃ a b, s₁.tables.heap.guest.word output = a ∧
        ∀ events : List (Callback M), (∀ event ∈ events, event.Spares a b record) →
          Serves (endState (runEvents events s₁)) ctx a b record)
      (fun e _ => e.isHostError = true) s := by
  obtain ⟨hw, -⟩ := wp_of_ok (Heap.init_spec base size g) hinit
  have hi := hh.inv hw
  have hlookup : s.panels.lookup name = some record := by
    rw [hh.panels]
    exact CompilerPanels.lookup_toBytes hrecords hmem
  have hcheck : checkContext ctx s = .ok () s := by
    rw [checkContext, bind_of_ok (get_eq s), hctx, if_neg (by simp)]
    rfl
  rw [Callback.call, cwGetNamedPreferences, wp_bind, wp_iff_of_ok hcheck, wp_bind, wp_get,
    hlookup]
  dsimp only
  rw [wp_bind]
  refine wp_mono (onTables_spec (wp_and (HandleTables.allocCwHandle_spec hi record true)
    (HandleTables.allocCwHandle_makes hi record true))) ?_ fun _ _ he => he.1.1.1
  rintro a s₁ ⟨⟨hcreated, b, hmade⟩, hs₁⟩
  have hout₁ : s₁.tables.heap.guest.Accessible output 4 :=
    ⟨fun x h1 h2 => (hmade.mapped x).mpr (hout.mapped x h1 h2), hout.below⟩
  have hapart₁ : ∀ x, Has (output, 4) x → ¬ Covers (HandleTables.memory a b record) x :=
    fun x hx hmem => hapart x hx (hmade.fresh x hmem)
  have hmod : a % 2 ^ 32 = a :=
    hcreated.inv.owns.mod_eq (hmade.holds.owned List.mem_cons_self)
  have hctx₁ : s₁.ctxPtr = some ctx := by
    rw [hs₁]
    exact hctx
  -- The handle is stored outside its own memory.
  simp only [onTables, HandleTables.onGuest, HandleTables.onHandles, Handles.onGuest,
    Handles.onHeap, Heap.onGuest, wp_zoom]
  refine wp_mono (Guest.w32_spec hout₁) (fun _ g hg => ?_) fun _ _ he => he.elim
  obtain ⟨hwritten, hword⟩ := hg
  refine ⟨a, b, hword.trans hmod, fun events hspare => ?_⟩
  have hi₂ : HandleTables.Inv (s₁.tables.withHeap { s₁.tables.heap with guest := g }) :=
    ⟨⟨hcreated.inv.owns.withGuest hwritten.mapped, hcreated.inv.classic.keyed⟩,
      hcreated.inv.cwKeyed⟩
  have hholds : (s₁.tables.withHeap { s₁.tables.heap with guest := g }).Holds a b record := by
    refine hmade.holds.keeps rfl fun y hy => hwritten.frame y fun hat => ?_
    rw [toBE_length] at hat
    exact hapart₁ y hat hy
  have hrun := wp_endState (runEvents_holds events (s := { s₁ with
    tables := s₁.tables.withHeap { s₁.tables.heap with guest := g } }) hi₂ hholds hspare)
  exact serves_of_holds hrun.1 hrun.2 ((runEvents_samePanels events _).2.trans hctx₁)

/-- The record of the default warnings, handed out on a small heap. -/
theorem preferences_kept_warnings :
    ∃ (heap : Heap .flat) (g : Guest .flat) (records : List (Str × List UInt8))
      (record : List UInt8),
      Heap.init 0x2000 256 ⟨ByteMemory.blank⟩ = .ok heap g ∧
      CompilerPanels.defaults.panelsBytes id none = .ok records ∧
      ("C/C++ Warnings".toList, record) ∈ records ∧
      wp (Callback.getNamedPreferences 1 "C/C++ Warnings".toList 0x2F00).call
        (fun _ s₁ => ∃ a b, s₁.tables.heap.guest.word 0x2F00 = a ∧
          ∀ events : List (Callback .flat), (∀ event ∈ events, event.Spares a b record) →
            Serves (endState (runEvents events s₁)) 1 a b record)
        (fun e _ => e.isHostError = true) { new heap records with ctxPtr := some 1 } := by
  obtain ⟨heap, g, hinit, hfree, hacc⟩ : ∃ (heap : Heap .flat) (g : Guest .flat),
      Heap.init 0x2000 256 ⟨ByteMemory.blank⟩ = .ok heap g ∧ heap.freeList = [(0x2000, 256)] ∧
      heap.guest.Accessible 0x2F00 4 := by
    refine ⟨_, _, rfl, rfl, ⟨fun x h1 h2 => ?_, by decide⟩⟩
    show (false || (decide (0x2000 ≤ x) && decide (x < 0x2000 + 0x1000))) = true
    simp only [Bool.false_or, Bool.and_eq_true, decide_eq_true_eq]
    omega
  obtain ⟨records, hrecords⟩ : ∃ records,
      CompilerPanels.defaults.panelsBytes id none = .ok records := ⟨_, rfl⟩
  obtain ⟨record, hrecord⟩ : ∃ record, CWarningsPanel.toBytes {} = .ok record := ⟨_, rfl⟩
  have hmem : ("C/C++ Warnings".toList, record) ∈ records := by
    obtain ⟨compiler, -, hrest⟩ := bind_eq_ok hrecords
    obtain ⟨warnings, hwarnings, hrest⟩ := bind_eq_ok hrest
    obtain ⟨optimizer, -, hrest⟩ := bind_eq_ok hrest
    obtain ⟨codeGen, -, hrest⟩ := bind_eq_ok hrest
    cases hrest
    have hsame : warnings = record := Except.ok.inj (hwarnings.symm.trans hrecord)
    exact List.mem_cons_of_mem _ (hsame ▸ List.mem_cons_self)
  refine ⟨heap, g, records, record, hinit, hrecords, hmem, preferences_kept hinit hrecords
    (.context 1 .new rfl) rfl hmem hacc fun x hx hfree' => ?_⟩
  have hheap : Covers heap.freeList x := hfree'
  rw [hfree] at hheap
  obtain ⟨r, hr, hin⟩ := hheap
  rw [List.mem_singleton.mp hr] at hin
  have h1 : 0x2F00 ≤ x := hx.1
  have h2 : x < 0x2000 + 256 := hin.2
  omega

end Session

end Cwhost
