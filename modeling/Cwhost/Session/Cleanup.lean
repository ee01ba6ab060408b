import Cwhost.Session.Request

/-!
# What a failed request leaves behind

`request` cleans up in its last lines only, so whatever raises after the request has become the
current one leaves it current, and its handles allocated.

* `call_current`, `runEvents_current`: no callback touches `_current`.
* `failed_request_idle_iff`: a request that raises leaves an idle session only when it was refused
  as one after termination, and the session was idle already.
-/

namespace Cwhost.Session

open Lib

variable {M : ByteMemory} {s s' : Session M}

/-! ## The current request -/

theorem onTables_current {α : Type} (x : EStateM Exc (HandleTables M) α) {current : Option Int}
    (hs : s.current = current) :
    wp (onTables x) (fun _ s' => s'.current = current) (fun _ s' => s'.current = current) s := by
  rw [onTables, wp_zoom]
  exact wp_mono (wp_self x s.tables) (fun _ _ _ => hs) fun _ _ _ => hs

/-- **No callback touches the current request**, however it ends. -/
theorem call_current (event : Callback M) {current : Option Int} (hs : s.current = current) :
    wp event.call (fun _ s' => s'.current = current) (fun _ s' => s'.current = current) s := by
  cases event with
  | donePluginRequest context result =>
    simp only [Callback.call, cwDonePluginRequest, doneRequest, wp_bind, wp_get, wp_ite, wp_throw,
      wp_set]
    exact checkContext_wp (fun _ => ⟨fun _ => hs, fun _ => hs⟩) fun _ => hs
  | getNamedPreferences context name output =>
    simp only [Callback.call, cwGetNamedPreferences, wp_bind, wp_get]
    refine checkContext_wp (fun _ => ?_) fun _ => hs
    cases hl : s.panels.lookup name with
    | none => exact hs
    | some data =>
      simp only [wp_bind]
      exact wp_mono (onTables_current _ hs) (fun _ _ h => onTables_current _ h) fun _ _ h => h
  | freeMemHandle context handle =>
    simp only [Callback.call, cwFreeMemHandle, wp_bind]
    exact checkContext_wp (fun _ => onTables_current _ hs) fun _ => hs
  | newHandle size => exact onTables_current _ hs
  | disposeHandle handle => exact onTables_current _ hs
  | setHandleSize handle size => exact onTables_current _ hs
  | hLock handle => exact onTables_current _ hs
  | hUnlock handle => exact onTables_current _ hs
  | stores w =>
    rw [Callback.call, guestStores]
    exact onTables_current _ hs
  | raises e => exact hs

theorem runEvents_current (events : List (Callback M)) {s : Session M} {current : Option Int}
    (hs : s.current = current) :
    wp (runEvents events) (fun _ s' => s'.current = current) (fun _ s' => s'.current = current)
      s := by
  induction events generalizing s with
  | nil => exact hs
  | cons event events ih =>
    rw [runEvents, wp_bind]
    exact wp_mono (call_current event hs) (fun _ _ h => ih h) fun _ _ h => h

theorem guestCall_current (b : MainRun M) {current : Option Int} (hs : s.current = current) :
    wp (guestCall b) (fun _ s' => s'.current = current) (fun _ s' => s'.current = current) s := by
  rw [guestCall, wp_bind]
  refine wp_mono (runEvents_current b.events hs) (fun _ s₁ h₁ => ?_) fun _ _ h => h
  cases b.ending <;> exact h₁

/-- **A request that has begun and raises** stays the current one. -/
theorem request_error_current {f : Fragment} {c : Nat} (hf : s.fragment = some f)
    (hctx : s.ctxPtr = some c) (hst : s.state ≠ .terminated) (code : Int) (b : MainRun M) :
    wp (request code b) (fun _ _ => True) (fun _ s' => s'.current = some code) s := by
  simp only [request, wp_bind, wp_get, hf, hctx, wp_ite, wp_throw, wp_modify]
  refine ⟨fun h => absurd h hst, fun _ => ?_⟩
  have hbegun : (begin code s).current = some code := rfl
  cases hm : f.mainEntry with
  | none =>
    simp only [mainTvector, hm]
    exact hbegun
  | some tvector =>
    simp only [mainTvector, hm, wp_pure]
    refine wp_mono (guestCall_current b hbegun) (fun _ s₁ h₁ => ⟨fun _ => h₁, fun _ => ?_⟩)
      fun _ _ h => h
    exact wp_mono (onTables_current _ h₁) (fun _ _ _ => trivial) fun _ _ h => h

/-! ## An idle session -/

/-- No current request, and no request-scoped `CWMemHandle` live. -/
structure Idle (s : Session M) : Prop where
  current : s.current = none
  handles : ∀ e ∈ s.tables.cwHandles.items, e.2.requestScoped = false

/-- What a successful request leaves: an idle session, and the bytes of every request-scoped
handle free. -/
structure IdleAgain (s s' : Session M) : Prop where
  idle : Idle s'
  free : ∀ e ∈ s.tables.cwHandles.items, e.2.requestScoped = true →
    ∀ x, Covers e.2.owned x → Covers s'.tables.heap.freeList x

/-- **A failed request leaves an idle session** exactly when it was refused as a request after
termination of a session that was idle before. -/
theorem failed_request_idle_iff (hf : s.fragment ≠ none) (hctx : s.ctxPtr ≠ none) {code : Int}
    {b : MainRun M} {e : Exc} (hr : request code b s = .error e s') :
    IdleAgain s s' ↔ s.state = .terminated ∧ Idle s := by
  obtain ⟨f, hf⟩ := Option.ne_none_iff_exists'.mp hf
  obtain ⟨c, hctx⟩ := Option.ne_none_iff_exists'.mp hctx
  by_cases hst : s.state = .terminated
  · -- The request is refused before it changes anything.
    have hsame : s' = s := by
      have hspec : wp (request code b) (fun _ _ => True) (fun _ s' => s' = s) s := by
        simp only [request, wp_bind, wp_get, hf, hctx, wp_ite, wp_throw]
        exact ⟨fun _ => trivial, fun h => absurd hst h⟩
      have hend := wp_of_error hspec hr
      exact hend
    subst hsame
    constructor
    · intro h
      exact ⟨hst, h.idle⟩
    · rintro ⟨-, hidle⟩
      refine ⟨hidle, fun e he hsc => ?_⟩
      rw [hidle.handles e he] at hsc
      exact absurd hsc (by simp)
  · constructor
    · intro h
      have hcur := wp_of_error (request_error_current hf hctx hst code b) hr
      rw [h.idle.current] at hcur
      exact absurd hcur (by simp)
    · rintro ⟨h, -⟩
      exact absurd h hst

/-- A loaded session on a heap of 256 bytes, with one named preference panel. -/
def loadedFlat (heap : Heap .flat) : Session .flat :=
  { new heap [(['p'], [1, 2, 3])] with
    ctxPtr := some 1, fragment := some ⟨some 7⟩, state := .loaded }

theorem failed_request_idle_iff_flat :
    ∃ (heap : Heap .flat) (g : Guest .flat) (e : Exc) (s' : Session .flat),
      Heap.init 0x2000 256 ⟨ByteMemory.blank⟩ = .ok heap g ∧
      request 0 ⟨[], .ok 0⟩ (loadedFlat heap) = .error e s' ∧
      (IdleAgain (loadedFlat heap) s' ↔
        (loadedFlat heap).state = .terminated ∧ Idle (loadedFlat heap)) := by
  obtain ⟨heap, g, hi⟩ : ∃ (heap : Heap .flat) (g : Guest .flat),
      Heap.init 0x2000 256 ⟨ByteMemory.blank⟩ = .ok heap g := ⟨_, _, rfl⟩
  obtain ⟨e, s', hr⟩ : ∃ e s', request 0 ⟨[], .ok 0⟩ (loadedFlat heap) = .error e s' :=
    ⟨_, _, rfl⟩
  exact ⟨heap, g, e, s', hi, hr,
    failed_request_idle_iff (Option.some_ne_none _) (Option.some_ne_none _) hr⟩

/-- The main routine reads a preference panel and returns without `CWDonePluginRequest`: the request
stays current and the handle of the panel stays allocated. -/
theorem request_without_done :
    ∃ (heap : Heap .flat) (g : Guest .flat) (e : Exc) (s' : Session .flat),
      Heap.init 0x2000 256 ⟨ByteMemory.blank⟩ = .ok heap g ∧
      request 0 ⟨[.getNamedPreferences 1 ['p'] 0x20F0], .ok 0⟩ (loadedFlat heap) = .error e s' ∧
      s'.current = some 0 ∧ s'.tables.cwHandles.items = [(0x2000, ⟨0x2000, 0x2008, 3, true⟩)] ∧
      s'.tables.heap.allocations.get? 0x2008 = some 3 :=
  ⟨_, _, _, _, rfl, rfl, rfl, rfl, rfl⟩

end Cwhost.Session
