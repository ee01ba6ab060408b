import Cwhost.Session.Cleanup
import Cwhost.Session.HostSession

/-!
# The requests of a session are requests (`session.py`, `Session.request`)

A main routine that hands over no text and no object does in a `HostSession` what it does in its
`Session`: what is proved of the requests of a `Session` holds of those of a loaded plug-in.

* `request_ofMain`: the two requests agree. `wp_request_ofMain`: so specifications carry over.
-/

namespace Cwhost.HostSession

open Lib

variable {M : ByteMemory} {l : HostSession M}

/-- A main routine with plain callbacks only. -/
def ofMain (b : MainRun M) : HostRun M := ⟨b.events.map .base, b.ending⟩

theorem onSession_bind {α β : Type} (x : EStateM Exc (Session M) α)
    (f : α → EStateM Exc (Session M) β) :
    onSession (x >>= f) = onSession x >>= fun a => onSession (f a) := by
  unfold onSession
  refine zoom_bind ?_ ?_ x f
  · intro t s
    rfl
  · intro t s s'
    rfl

/-- The callbacks, one after the other. -/
theorem runEvents_base (events : List (Callback M)) :
    runEvents (events.map .base) = onSession (Session.runEvents events) := by
  induction events with
  | nil => rfl
  | cons event events ih =>
    rw [List.map_cons, runEvents, ih, Session.runEvents, onSession_bind]
    rfl

/-- The main routine, which counts as one run of guest code. -/
theorem run_ofMain (b : MainRun M) (l : HostSession M) :
    run (ofMain b) l =
      onSession (Session.guestCall b) { l with guestCalls := l.guestCalls + 1 } := by
  obtain ⟨events, ending⟩ := b
  have hcall : onSession (Session.guestCall ⟨events, ending⟩) =
      runEvents (events.map .base) >>= fun _ => MonadExcept.ofExcept ending := by
    rw [runEvents_base, Session.guestCall, onSession_bind]
    cases ending <;> rfl
  rw [hcall]
  rfl

/-- The end of a request, in both. -/
theorem finishRequest_eq (code : Int) (result : Nat) (l : HostSession M) :
    finishRequest code result l = onSession (do
      let t ← get
      if t.doneCount ≠ 1 then
        throw (.pluginError
          s!"request {code} returned without exactly one CWDonePluginRequest")
      let done := t.done.getD result
      Session.onTables HandleTables.freeRequestHandles
      modify fun s => { s with state := Session.nextState code s.state, current := none }
      return done) l := by
  have hget : onSession get l = .ok l.session l := rfl
  rw [finishRequest, onSession_bind, bind_of_ok (get_eq l), bind_of_ok hget]
  by_cases hdone : l.session.doneCount ≠ 1
  · rw [if_pos hdone, if_pos hdone]
    rfl
  · rw [if_neg hdone, if_neg hdone]
    dsimp only
    rw [onSession_bind]
    congr

/-- An accessible routine descriptor is read, and nothing changes. -/
theorem enter_ok {tvector : Nat} (h : l.guest.Accessible tvector 8) :
    enter tvector l = .ok () l := by
  have hread : ∀ address, l.guest.Accessible address 4 →
      ∃ word, onGuest (Guest.u32 address) l = .ok word l := by
    intro address haddress
    have hword : wp (onGuest (Guest.u32 address)) (fun _ l' => l' = l) (fun _ _ => False) l := by
      rw [wp_onGuest, Guest.u32, wp_bind]
      refine wp_mono (Guest.read_spec haddress (by decide)) ?_ fun _ _ hf => hf
      rintro data g ⟨rfl, -⟩
      rfl
    obtain ⟨word, l', hok, rfl⟩ := wp_exists_ok hword
    exact ⟨word, hok⟩
  obtain ⟨code, hcode⟩ := hread tvector (h.sub (Nat.le_refl _) (by omega))
  obtain ⟨toc, htoc⟩ := hread (tvector + 4) (h.sub (Nat.le_add_right _ _) (by omega))
  rw [enter, bind_of_ok hcode, bind_of_ok htoc]
  rfl

/-- **A request is a request**: with a main routine whose descriptor is accessible, and that hands
over neither texts nor objects, a `HostSession` goes through the request of its `Session`. -/
theorem request_ofMain {fragment : Pef.Fragment} {tvector ctx : Nat}
    (hf : l.fragment = some fragment) (hmain : fragment.mainTvector = .ok tvector)
    (hsession : l.session.fragment = some ⟨some tvector⟩) (hctx : l.session.ctxPtr = some ctx)
    (hst : l.session.state ≠ .terminated) (htv : l.guest.Accessible tvector 8) (code : Int)
    (b : MainRun M) :
    request code (ofMain b) l =
      onSession (Session.request code b) { l with guestCalls := l.guestCalls + 1 } := by
  have henter : enter tvector (l.begun code) = .ok () (l.begun code) := enter_ok htv
  rw [request_eq hf (hctx ▸ Option.some_ne_none ctx) hst hmain, guestCall, bind_assoc,
    bind_of_ok henter]
  -- the request of the session, up to the main routine
  have hget : onSession get { l with guestCalls := l.guestCalls + 1 } =
      .ok l.session { l with guestCalls := l.guestCalls + 1 } := rfl
  have hbegin : onSession (modify (Session.begin code)) { l with guestCalls := l.guestCalls + 1 } =
      .ok ⟨⟩ { l.begun code with guestCalls := l.guestCalls + 1 } := rfl
  have hentry : ∀ l' : HostSession M, onSession (Session.mainTvector ⟨some tvector⟩) l' =
      .ok tvector l' := fun _ => rfl
  rw [Session.request, onSession_bind, bind_of_ok hget, hsession, hctx]
  dsimp only
  rw [if_neg hst, onSession_bind, bind_of_ok hbegin, onSession_bind, bind_of_ok (hentry _),
    onSession_bind]
  have hrun := run_ofMain b (l.begun code)
  cases hres : onSession (Session.guestCall b)
      { l.begun code with guestCalls := l.guestCalls + 1 } with
  | ok result l' =>
    rw [bind_of_ok (hrun.trans hres), bind_of_ok hres]
    exact finishRequest_eq code result l'
  | error e l' => rw [bind_of_error _ (hrun.trans hres), bind_of_error _ hres]

/-- **Specifications carry over**: what is proved of the request of a `Session` holds of the session
part of a `HostSession`. -/
theorem wp_request_ofMain {fragment : Pef.Fragment} {tvector ctx : Nat} {code : Int} {b : MainRun M}
    {Q : Int → Session M → Prop} {E : Exc → Session M → Prop}
    (hf : l.fragment = some fragment) (hmain : fragment.mainTvector = .ok tvector)
    (hsession : l.session.fragment = some ⟨some tvector⟩) (hctx : l.session.ctxPtr = some ctx)
    (hst : l.session.state ≠ .terminated) (htv : l.guest.Accessible tvector 8)
    (h : wp (Session.request code b) Q E l.session) :
    wp (request code (ofMain b)) (fun done l' => Q done l'.session) (fun e l' => E e l'.session)
      l := by
  unfold wp at h ⊢
  rw [request_ofMain hf hmain hsession hctx hst htv]
  exact wp_zoom.mpr h

end Cwhost.HostSession
