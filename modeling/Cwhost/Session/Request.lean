import Cwhost.Session.Ownership
import Mathlib.Data.Nat.Bitwise

/-!
# The request protocol (`session.py`, `Session.request`)

A request runs the plug-in's main routine, which calls back into the host any number of times.
What the foreign code does is arbitrary: a list of callbacks, stores to guest memory between
them, and an end, normal or not. Exactly one of the callbacks must record a result.

* `request_eq_ok_iff`: what a request returns, and when.
* `History.inv`: ownership of guest memory over any history of requests, whatever the guest
  writes.
* `request_protocol`: the protocol, from any state of such a history.
-/

namespace Cwhost

open Lib

/-- The values of `_state`. -/
inductive SessionState
  | new
  | loaded
  | initialized
  | terminated
  deriving DecidableEq, Repr

/-- `loader.Fragment`, as far as a request uses it: `_optional_entry_tvector("main")`. -/
structure Fragment where
  mainEntry : Option Nat
  deriving DecidableEq, Repr

/-- The state of a session that requests read and write. -/
structure Session (M : ByteMemory) where
  tables : HandleTables M
  panels : List (Str × List UInt8)
  fragment : Option Fragment
  ctxPtr : Option Nat
  /-- `_current`. -/
  current : Option Int
  /-- `_done`. -/
  done : Option Int
  /-- `_done_count`. -/
  doneCount : Nat
  /-- `_state`. -/
  state : SessionState

/-- `REQ_INITIALIZE`. -/
def reqInitialize : Int := -2

/-- `REQ_TERMINATE`. -/
def reqTerminate : Int := -1

/-- The guest code between two callbacks: any change of the contents of mapped memory. -/
structure GuestStores (M : ByteMemory) where
  run : M.State → M.State
  mapped : ∀ s x, M.mapped (run s) x ↔ M.mapped s x

/-- What the plug-in makes happen in the host: a callback of `pluginlib.py` or of the Memory
Manager, stores of its own, or a callback that raises without touching the session. Callbacks
that only read the session are no events. -/
inductive Callback (M : ByteMemory)
  | donePluginRequest (context : Nat) (result : UInt32)
  | getNamedPreferences (context : Nat) (name : Str) (output : Nat)
  | freeMemHandle (context handle : Nat)
  | newHandle (size : Nat)
  | disposeHandle (handle : Nat)
  | setHandleSize (handle size : Nat)
  | hLock (handle : Nat)
  | hUnlock (handle : Nat)
  | stores (w : GuestStores M)
  | raises (e : Exc)

/-- One run of the main routine: what it makes happen, and how it ends, with the value of its
result register or in an exception of the emulator. -/
structure MainRun (M : ByteMemory) where
  events : List (Callback M)
  ending : Except Exc Nat

/-- The value `CWDonePluginRequest` makes of its unsigned argument. -/
def signed32 (result : UInt32) : Int :=
  if result.toNat &&& 0x80000000 ≠ 0 then (result.toNat : Int) - 2 ^ 32 else result.toNat

/-- It is the two's complement value. -/
theorem signed32_eq_toInt (result : UInt32) : signed32 result = result.toBitVec.toInt := by
  have hbit : result.toNat &&& 0x80000000 ≠ 0 ↔ result.toBitVec.msb = true := by
    have h1 := Nat.and_two_pow result.toNat 31
    rw [show (2 : Nat) ^ 31 = 0x80000000 from rfl] at h1
    rw [h1, BitVec.msb_eq_getLsbD_last, BitVec.getLsbD, UInt32.toNat_toBitVec]
    cases result.toNat.testBit 31 <;> simp
  rw [signed32, BitVec.toInt_eq_msb_cond, if_congr hbit rfl rfl]
  rfl

namespace Session

variable {M : ByteMemory}

/-- The state the constructor leaves. -/
def new (heap : Heap M) (panels : List (Str × List UInt8)) : Session M where
  tables := .new heap
  panels := panels
  fragment := none
  ctxPtr := none
  current := none
  done := none
  doneCount := 0
  state := .new

/-- Run an operation of the handle tables. -/
def onTables {α : Type} (x : EStateM Exc (HandleTables M) α) : EStateM Exc (Session M) α :=
  zoom Session.tables (fun s t => { s with tables := t }) x

/-- `_check_context`. -/
def checkContext (context : Nat) : EStateM Exc (Session M) Unit := do
  let s ← get
  if s.ctxPtr ≠ some context then
    throw (.pluginError s!"callback received invalid CWPluginContext {hex context}")

/-- The `str` of `_current`. -/
def currentText : Option Int → String
  | none => "None"
  | some code => s!"{code}"

/-- `_done_request`. -/
def doneRequest (result : Int) : EStateM Exc (Session M) Unit := do
  let s ← get
  if s.doneCount ≠ 0 then
    throw (.pluginError
      s!"CWDonePluginRequest called more than once for request {currentText s.current}")
  set { s with done := some result, doneCount := 1 }

/-- `CWDonePluginRequest`. -/
def cwDonePluginRequest (context : Nat) (result : UInt32) : EStateM Exc (Session M) Unit := do
  checkContext context
  doneRequest (signed32 result)

/-- `CWGetNamedPreferences`, from the decoded name on. -/
def cwGetNamedPreferences (context : Nat) (name : Str) (output : Nat) :
    EStateM Exc (Session M) Unit := do
  checkContext context
  let s ← get
  match s.panels.lookup name with
  | none => throw (.hostError s!"unknown named preferences {pyRepr name}")
  | some data =>
    let handle ← onTables (HandleTables.allocCwHandle data true)
    onTables (HandleTables.onGuest (Guest.w32 output handle))

/-- `CWFreeMemHandle`. -/
def cwFreeMemHandle (context handle : Nat) : EStateM Exc (Session M) Unit := do
  checkContext context
  onTables (HandleTables.freeCwHandle handle)

/-- Guest code changes guest memory. -/
def guestStores (w : GuestStores M) : EStateM Exc (Session M) Unit :=
  onTables (HandleTables.onGuest (modify fun g => { g with uc := w.run g.uc }))

end Session

namespace Callback

open Session

variable {M : ByteMemory}

/-- The host side of an event. -/
def call : Callback M → EStateM Exc (Session M) Unit
  | donePluginRequest context result => cwDonePluginRequest context result
  | getNamedPreferences context name output => cwGetNamedPreferences context name output
  | freeMemHandle context handle => cwFreeMemHandle context handle
  | newHandle size => onTables (HandleTables.Op.new size false).call
  | disposeHandle handle => onTables (HandleTables.Op.dispose handle).call
  | setHandleSize handle size => onTables (HandleTables.Op.resize handle size).call
  | hLock handle => onTables (HandleTables.Op.lock handle).call
  | hUnlock handle => onTables (HandleTables.Op.unlock handle).call
  | stores w => guestStores w
  | raises e => throw e

end Callback

namespace Session

variable {M : ByteMemory}

/-- The callbacks of a run, one after the other; the first exception ends it. -/
def runEvents : List (Callback M) → EStateM Exc (Session M) Unit
  | [] => pure ()
  | event :: events => do
    event.call
    runEvents events

/-- `guest.call` of the main routine. -/
def guestCall (b : MainRun M) : EStateM Exc (Session M) Nat := do
  runEvents b.events
  match b.ending with
  | .ok result => return result
  | .error e => throw e

/-- `main_tvector`. -/
def mainTvector (f : Fragment) : EStateM Exc (Session M) Nat :=
  match f.mainEntry with
  | some tvector => pure tvector
  | none => throw (.hostError "fragment has no main entry point")

/-- The session as a request sets it up for the main routine. -/
def begin (code : Int) (s : Session M) : Session M :=
  { s with current := some code, done := none, doneCount := 0 }

/-- The state after a request. -/
def nextState (code : Int) (state : SessionState) : SessionState :=
  if code = reqInitialize then .initialized
  else if code = reqTerminate then .terminated
  else state

/-- `request`, with the behaviour of the main routine. -/
def request (code : Int) (b : MainRun M) : EStateM Exc (Session M) Int := do
  let s ← get
  match s.fragment, s.ctxPtr with
  | some fragment, some _ =>
    if s.state = .terminated then
      throw (.pluginError "request after termination")
    modify (begin code)
    let _ ← mainTvector fragment
    let result ← guestCall b
    let t ← get
    if t.doneCount ≠ 1 then
      throw (.pluginError
        s!"request {code} returned without exactly one CWDonePluginRequest")
    let done := t.done.getD result
    onTables HandleTables.freeRequestHandles
    modify fun s => { s with state := nextState code s.state, current := none }
    return done
  | _, _ => throw (.hostError "session is not loaded")

/-! ## What the callbacks leave true -/

/-- The results recorded by the events, in order. -/
def doneResults (events : List (Callback M)) : List Int :=
  events.filterMap fun event =>
    match event with
    | .donePluginRequest _ result => some (signed32 result)
    | _ => none

variable {s s' : Session M}

theorem onTables_spec {α : Type} {x : EStateM Exc (HandleTables M) α}
    {Q : α → HandleTables M → Prop} {E : Exc → HandleTables M → Prop}
    (hx : wp x Q E s.tables) :
    wp (onTables x) (fun a s' => Q a s'.tables ∧ s' = { s with tables := s'.tables })
      (fun e s' => E e s'.tables ∧ s' = { s with tables := s'.tables }) s := by
  rw [onTables, wp_zoom]
  exact wp_mono hx (fun _ _ h => ⟨h, rfl⟩) fun _ _ h => ⟨h, rfl⟩

theorem checkContext_wp {context : Nat} {Q : Unit → Session M → Prop}
    {E : Exc → Session M → Prop} (hQ : s.ctxPtr = some context → Q () s)
    (hE : ∀ e, E e s) : wp (checkContext context) Q E s := by
  simp only [checkContext, wp_bind, wp_get, wp_ite, wp_throw, wp_pure]
  exact ⟨fun _ => hE _, fun h => hQ (not_not.mp h)⟩

theorem op_inv (hi : s.tables.Inv) (op : HandleTables.Op) :
    wp (onTables op.call) (fun _ s' => s'.tables.Inv) (fun _ s' => s'.tables.Inv) s :=
  wp_mono (onTables_spec (HandleTables.call_spec hi op)) (fun _ _ h => h.1.inv)
    fun _ _ h => h.1.2.inv

/-- **Every event keeps ownership**, however it ends. -/
theorem call_inv (hi : s.tables.Inv) (event : Callback M) :
    wp event.call (fun _ s' => s'.tables.Inv) (fun _ s' => s'.tables.Inv) s := by
  cases event with
  | donePluginRequest context result =>
    simp only [Callback.call, cwDonePluginRequest, doneRequest, wp_bind, wp_get, wp_ite, wp_throw,
      wp_set]
    exact checkContext_wp (fun _ => ⟨fun _ => hi, fun _ => hi⟩) fun _ => hi
  | getNamedPreferences context name output =>
    simp only [Callback.call, cwGetNamedPreferences, wp_bind, wp_get]
    refine checkContext_wp (fun _ => ?_) fun _ => hi
    cases hl : s.panels.lookup name with
    | none => exact hi
    | some data =>
      simp only [wp_bind]
      refine wp_mono (onTables_spec (HandleTables.allocCwHandle_spec hi data true))
        (fun a s₁ h₁ => ?_) fun _ _ h => h.1.2.inv
      refine wp_mono (onTables_spec (HandleTables.Inv.withGuest h₁.1.inv ?_)) (fun _ _ h => h.1)
        fun _ _ h => h.1
      exact wp_mono (Guest.write_mapped _ _ _) (fun _ _ h => h) fun _ _ h => by simp [h]
  | freeMemHandle context handle =>
    simp only [Callback.call, cwFreeMemHandle, wp_bind]
    exact checkContext_wp (fun _ => op_inv hi (.freeCwHandle handle)) fun _ => hi
  | newHandle size => exact op_inv hi _
  | disposeHandle handle => exact op_inv hi _
  | setHandleSize handle size => exact op_inv hi _
  | hLock handle => exact op_inv hi _
  | hUnlock handle => exact op_inv hi _
  | stores w =>
    rw [Callback.call, guestStores]
    refine wp_mono (onTables_spec (HandleTables.Inv.withGuest hi ?_)) (fun _ _ h => h.1)
      fun _ _ h => h.1
    exact w.mapped _
  | raises e => exact hi

theorem runEvents_inv (events : List (Callback M)) {s : Session M} (hi : s.tables.Inv) :
    wp (runEvents events) (fun _ s' => s'.tables.Inv) (fun _ s' => s'.tables.Inv) s := by
  induction events generalizing s with
  | nil => exact hi
  | cons event events ih =>
    rw [runEvents, wp_bind]
    exact wp_mono (call_inv hi event) (fun _ _ h => ih h) fun _ _ h => h

/-- The recorded result. -/
def recorded (s : Session M) : Option Int × Nat := (s.done, s.doneCount)

theorem onTables_recorded {α : Type} (x : EStateM Exc (HandleTables M) α) :
    wp (onTables x) (fun _ s' => s'.recorded = s.recorded) (fun _ _ => True) s := by
  rw [onTables, wp_zoom]
  unfold wp
  cases x s.tables with
  | ok a t => rfl
  | error e t => trivial

/-- The results one event records. -/
theorem call_recorded (event : Callback M) (s : Session M) :
    wp event.call
      (fun _ s' => (doneResults [event] = [] ∧ s'.recorded = s.recorded) ∨
        ∃ v, doneResults [event] = [v] ∧ s.doneCount = 0 ∧ s'.recorded = (some v, 1))
      (fun _ _ => True) s := by
  have keep : ∀ {α : Type} (x : EStateM Exc (HandleTables M) α) {Q : Session M → Prop}
      {s : Session M}, (∀ s' : Session M, s'.recorded = s.recorded → Q s') →
      wp (onTables x) (fun _ s' => Q s') (fun _ _ => True) s :=
    fun x _ _ hQ => wp_mono (onTables_recorded x) (fun _ s' h => hQ s' h) fun _ _ h => h
  cases event with
  | donePluginRequest context result =>
    simp only [Callback.call, cwDonePluginRequest, doneRequest, wp_bind, wp_get, wp_ite, wp_throw,
      wp_set]
    refine checkContext_wp (fun _ => ⟨fun _ => trivial, fun h => Or.inr ⟨_, rfl, ?_, rfl⟩⟩)
      fun _ => trivial
    exact not_not.mp h
  | getNamedPreferences context name output =>
    simp only [Callback.call, cwGetNamedPreferences, wp_bind, wp_get]
    refine checkContext_wp (fun _ => ?_) fun _ => trivial
    cases hl : s.panels.lookup name with
    | none => trivial
    | some data =>
      simp only [wp_bind]
      exact wp_mono (onTables_recorded _)
        (fun _ _ h => keep _ fun s' h' => Or.inl ⟨rfl, h'.trans h⟩) fun _ _ h => h
  | freeMemHandle context handle =>
    simp only [Callback.call, cwFreeMemHandle, wp_bind]
    exact checkContext_wp (fun _ => keep _ fun s' h' => Or.inl ⟨rfl, h'⟩) fun _ => trivial
  | newHandle size => exact keep _ fun s' h' => Or.inl ⟨rfl, h'⟩
  | disposeHandle handle => exact keep _ fun s' h' => Or.inl ⟨rfl, h'⟩
  | setHandleSize handle size => exact keep _ fun s' h' => Or.inl ⟨rfl, h'⟩
  | hLock handle => exact keep _ fun s' h' => Or.inl ⟨rfl, h'⟩
  | hUnlock handle => exact keep _ fun s' h' => Or.inl ⟨rfl, h'⟩
  | stores w =>
    rw [Callback.call, guestStores]
    exact keep _ fun s' h' => Or.inl ⟨rfl, h'⟩
  | raises e => trivial

theorem doneResults_cons (event : Callback M) (events : List (Callback M)) :
    doneResults (event :: events) = doneResults [event] ++ doneResults events :=
  List.filterMap_append (l := [event])

/-- **The recorded result of a run that returns**: nothing new, or the one result of its one
recording callback. -/
theorem runEvents_recorded (events : List (Callback M)) (s : Session M) :
    wp (runEvents events)
      (fun _ s' => (doneResults events = [] ∧ s'.recorded = s.recorded) ∨
        ∃ v, doneResults events = [v] ∧ s.doneCount = 0 ∧ s'.recorded = (some v, 1))
      (fun _ _ => True) s := by
  induction events generalizing s with
  | nil => exact Or.inl ⟨rfl, rfl⟩
  | cons event events ih =>
    rw [runEvents, wp_bind]
    refine wp_mono (call_recorded event s) (fun _ s₁ h₁ => ?_) fun _ _ h => h
    refine wp_mono (ih s₁) (fun _ s₂ h₂ => ?_) fun _ _ h => h
    rw [doneResults_cons]
    rcases h₁ with ⟨h₁, hs₁⟩ | ⟨v, h₁, h0, hs₁⟩ <;> rcases h₂ with ⟨h₂, hs₂⟩ | ⟨w, h₂, h0', hs₂⟩
    · exact Or.inl ⟨by rw [h₁, h₂]; rfl, hs₂.trans hs₁⟩
    · refine Or.inr ⟨w, by rw [h₁, h₂]; rfl, ?_, hs₂⟩
      rw [← h0']
      exact (congrArg Prod.snd hs₁).symm
    · exact Or.inr ⟨v, by rw [h₁, h₂]; rfl, h0, hs₂.trans hs₁⟩
    · -- A second recording callback raises.
      have h1 : s₁.doneCount = 1 := congrArg Prod.snd hs₁
      omega

/-! ## The outcome of a request -/

/-- The main routine of a loaded session runs and returns, leaving `s₁`. -/
def MainReturns (code : Int) (b : MainRun M) (s s₁ : Session M) : Prop :=
  ∃ f tvector result, s.fragment = some f ∧ f.mainEntry = some tvector ∧
    guestCall b (begin code s) = .ok result s₁

theorem guestCall_spec (b : MainRun M) (hi : s.tables.Inv) (hc : s.doneCount = 0) :
    wp (guestCall b)
      (fun _ s' => s'.tables.Inv ∧
        ((doneResults b.events = [] ∧ s'.doneCount = 0) ∨
          ∃ v, doneResults b.events = [v] ∧ s'.done = some v ∧ s'.doneCount = 1))
      (fun _ s' => s'.tables.Inv) s := by
  rw [guestCall, wp_bind]
  refine wp_mono (wp_and (runEvents_inv b.events hi) (runEvents_recorded b.events s))
    (fun _ s₁ h => ?_) fun _ _ h => h.1
  obtain ⟨hi₁, hrec⟩ := h
  cases b.ending with
  | error e => exact hi₁
  | ok result =>
    refine ⟨hi₁, ?_⟩
    rcases hrec with ⟨h1, h2⟩ | ⟨v, h1, -, h2⟩
    · exact Or.inl ⟨h1, (congrArg Prod.snd h2).trans hc⟩
    · exact Or.inr ⟨v, h1, congrArg Prod.fst h2, congrArg Prod.snd h2⟩

/-- What a request that returns has cleaned up after the main routine. -/
structure Cleaned (s₁ s' : Session M) : Prop where
  current : s'.current = none
  /-- No request-scoped `CWMemHandle` remains, and no other one is gone. -/
  table : s'.tables.cwHandles.items =
    s₁.tables.cwHandles.items.filter fun e => !e.2.requestScoped
  /-- The bytes of the request-scoped handles are free again. -/
  free : ∀ e ∈ s₁.tables.cwHandles.items, e.2.requestScoped = true →
    ∀ x, Covers e.2.owned x → Covers s'.tables.heap.freeList x
  classic : s'.tables.classic.handles = s₁.tables.classic.handles
  /-- No byte of guest memory is written. -/
  guest : s'.tables.heap.guest = s₁.tables.heap.guest
  inv : s'.tables.Inv

/-- **A request** of a loaded session returns `v` exactly when its main routine returns having
recorded `v` and nothing else. -/
theorem request_spec (code : Int) (b : MainRun M) (hi : s.tables.Inv) {f : Fragment} {c : Nat}
    (hf : s.fragment = some f) (hctx : s.ctxPtr = some c) (hst : s.state ≠ .terminated) :
    wp (request code b)
      (fun v s' => ∃ s₁, MainReturns code b s s₁ ∧ doneResults b.events = [v] ∧ Cleaned s₁ s')
      (fun _ s' => s'.tables.Inv ∧
        ∀ s₁ v, MainReturns code b s s₁ → doneResults b.events ≠ [v]) s := by
  simp only [request, wp_bind, wp_get]
  rw [hf, hctx]
  simp only [wp_bind, wp_ite, wp_throw, wp_modify]
  refine ⟨fun h => absurd h hst, fun _ => ?_⟩
  cases hm : f.mainEntry with
  | none =>
    simp only [mainTvector, hm]
    refine ⟨hi, fun s₁ v hr => ?_⟩
    obtain ⟨f', t, _, hf', ht, -⟩ := hr
    rw [hf, Option.some.injEq] at hf'
    rw [← hf', hm] at ht
    exact absurd ht (by simp)
  | some tvector =>
    simp only [mainTvector, hm, wp_pure]
    have hi' : (begin code s).tables.Inv := hi
    have hg := guestCall_spec b hi' rfl
    cases hrun : guestCall b (begin code s) with
    | error e s₁ =>
      rw [wp_iff_of_error hrun]
      refine ⟨wp_of_error hg hrun, fun s₂ v hr => ?_⟩
      obtain ⟨_, _, _, -, -, hr⟩ := hr
      rw [hrun] at hr
      cases hr
    | ok result s₁ =>
      have hmain : MainReturns code b s s₁ := ⟨f, tvector, result, hf, hm, hrun⟩
      rw [wp_iff_of_ok hrun]
      obtain ⟨hi₁, hrec⟩ := wp_of_ok hg hrun
      rcases hrec with ⟨hd, hc⟩ | ⟨v, hd, hdone, hc⟩
      · refine ⟨fun _ => ⟨hi₁, fun s₂ v _ hv => ?_⟩, fun h => absurd hc (by omega)⟩
        rw [hd] at hv
        exact absurd hv (by simp)
      · refine ⟨fun h => absurd hc h, fun _ => ?_⟩
        refine wp_mono (onTables_spec (HandleTables.freeRequestHandles_spec hi₁))
          (fun _ s₂ h₂ => ?_) fun _ _ h => h.1.elim
        obtain ⟨hfree, hs₂⟩ := h₂
        rw [hdone]
        refine ⟨s₁, hmain, hd, rfl, hfree.table, fun e he hsc x hx => ?_, hfree.classic,
          hfree.guest, hfree.inv⟩
        exact hfree.free x (Or.inr ⟨e, he, by simp [hsc], hx⟩)

/-! ## Histories -/

/-- The sessions reached from a new one: the context and the fragment are set while the plug-in
is loaded, the plug-in's other entry points call back, and requests come one after the other. -/
inductive History (heap : Heap M) (panels : List (Str × List UInt8)) : Session M → Prop
  | new : History heap panels (new heap panels)
  | context (c : Nat) {s : Session M} : History heap panels s → s.state = .new →
    History heap panels { s with ctxPtr := some c }
  | load (f : Fragment) {s : Session M} : History heap panels s → s.state = .new →
    History heap panels { s with fragment := some f, state := .loaded }
  | callback (event : Callback M) {s : Session M} : History heap panels s →
    History heap panels (endState (event.call s))
  | request (code : Int) (b : MainRun M) {s : Session M} : History heap panels s →
    History heap panels (endState (request code b s))

/-- A request keeps ownership, however it ends. -/
theorem request_inv (hi : s.tables.Inv) (code : Int) (b : MainRun M) :
    wp (request code b) (fun _ s' => s'.tables.Inv) (fun _ s' => s'.tables.Inv) s := by
  cases hf : s.fragment with
  | none =>
    simp only [request, wp_bind, wp_get, hf]
    exact hi
  | some f =>
    cases hctx : s.ctxPtr with
    | none =>
      simp only [request, wp_bind, wp_get, hf, hctx]
      exact hi
    | some c =>
      by_cases hst : s.state = .terminated
      · simp only [request, wp_bind, wp_get, hf, hctx, wp_ite, wp_throw]
        exact ⟨fun _ => hi, fun h => absurd hst h⟩
      · exact wp_mono (request_spec code b hi hf hctx hst) (fun _ _ h => h.choose_spec.2.2.inv)
          fun _ _ h => h.1

theorem History.inv {heap : Heap M} {panels : List (Str × List UInt8)} (hw : heap.WF)
    (hh : History heap panels s) : s.tables.Inv := by
  induction hh with
  | new => exact HandleTables.new_inv hw
  | context c _ _ ih => exact ih
  | load f _ _ ih => exact ih
  | callback event _ ih => exact wp_endState (call_inv ih event)
  | request code b _ ih => exact wp_endState (request_inv ih code b)

/-- What the clean-up leaves of every classic handle: everything. -/
theorem Cleaned.sameHandle {s₁ : Session M} (h : Cleaned s₁ s') {m : Nat} {v : Handle}
    (hg : s₁.tables.classic.handles.get? m = some v) :
    HandleTables.SameHandle s₁.tables s'.tables m v :=
  ⟨by rw [h.classic, hg], by rw [h.guest], by rw [h.guest]⟩

/-- **The request protocol**, for a loaded session after any history. -/
theorem request_protocol {base size : Int} {g g' : Guest M} {heap : Heap M}
    (hinit : Heap.init base size g = .ok heap g') {panels : List (Str × List UInt8)}
    (hh : History heap panels s) (hf : s.fragment ≠ none) (hctx : s.ctxPtr ≠ none)
    (hst : s.state ≠ .terminated) (code : Int) (b : MainRun M) :
    (∀ v, (∃ s', request code b s = .ok v s') ↔
      (∃ s₁, MainReturns code b s s₁) ∧ doneResults b.events = [v]) ∧
    ((doneResults b.events).length ≠ 1 → ∃ e s', request code b s = .error e s') ∧
    ∀ v s', request code b s = .ok v s' → ∃ s₁, MainReturns code b s s₁ ∧ Cleaned s₁ s' ∧
      (∀ e ∈ s'.tables.cwHandles.items, e.2.requestScoped = false) ∧
      ∀ m w, s₁.tables.classic.handles.get? m = some w →
        HandleTables.SameHandle s₁.tables s'.tables m w := by
  obtain ⟨hw, -⟩ := wp_of_ok (Heap.init_spec base size g) hinit
  obtain ⟨f, hf⟩ := Option.ne_none_iff_exists'.mp hf
  obtain ⟨c, hctx⟩ := Option.ne_none_iff_exists'.mp hctx
  have hspec := request_spec code b (hh.inv hw) hf hctx hst
  refine ⟨fun v => ⟨?_, ?_⟩, fun hlen => ?_, fun v s' hr => ?_⟩
  · rintro ⟨s', hr⟩
    obtain ⟨s₁, hm, hd, -⟩ := wp_of_ok hspec hr
    exact ⟨⟨s₁, hm⟩, hd⟩
  · rintro ⟨⟨s₁, hm⟩, hd⟩
    cases hr : request code b s with
    | ok w s' =>
      obtain ⟨_, -, hd', -⟩ := wp_of_ok hspec hr
      rw [hd, List.cons.injEq] at hd'
      exact ⟨s', by rw [hd'.1]⟩
    | error e s' => exact absurd hd ((wp_of_error hspec hr).2 s₁ v hm)
  · cases hr : request code b s with
    | ok w s' =>
      obtain ⟨_, -, hd, -⟩ := wp_of_ok hspec hr
      exact absurd (by rw [hd]; rfl) hlen
    | error e s' => exact ⟨e, s', rfl⟩
  · obtain ⟨s₁, hm, -, hc⟩ := wp_of_ok hspec hr
    refine ⟨s₁, hm, hc, fun e he => ?_, fun m w hg => hc.sameHandle hg⟩
    rw [hc.table, List.mem_filter] at he
    simpa using he.2

theorem request_protocol_flat :
    ∃ (heap : Heap .flat) (g : Guest .flat),
      Heap.init 0x2000 256 ⟨ByteMemory.blank⟩ = .ok heap g ∧
      (∃ s', request 0 ⟨[.donePluginRequest 1 0xFFFFFFFB], .ok 0⟩
        { new heap [] with ctxPtr := some 1, fragment := some ⟨some 7⟩, state := .loaded } =
          .ok (-5) s') := by
  obtain ⟨heap, g, hi⟩ : ∃ (heap : Heap .flat) (g : Guest .flat),
      Heap.init 0x2000 256 ⟨ByteMemory.blank⟩ = .ok heap g := ⟨_, _, rfl⟩
  refine ⟨heap, g, hi, ((request_protocol hi (.load ⟨some 7⟩ (.context 1 .new rfl) rfl)
    (Option.some_ne_none _) (Option.some_ne_none _) SessionState.noConfusion 0
    ⟨[.donePluginRequest 1 0xFFFFFFFB], .ok 0⟩).1 (-5)).mpr
      ⟨⟨_, ⟨some 7⟩, 7, 0, rfl, rfl, rfl⟩, rfl⟩⟩

end Session

end Cwhost
