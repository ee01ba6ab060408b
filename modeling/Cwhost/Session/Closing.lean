import Cwhost.Session.HostSession

/-!
# What a closed session still does (`session.py`, `Session.close`)

`close` sets `_closed`, which nothing but `close` itself reads: `request` looks at `_state` and at
the fragment, `load` at `_state`.

* `close_closed`: every `close` closes the session, however it ends.
* `step_quiet_iff`: which operations on a closed session run no guest code and are refused.
* `closed_quiet_iff`: so close is terminal in exactly those runs all of whose later operations are
  refused by their own checks. `terminated_quiet`: as after a `close` that ends in the terminated
  state. `closed_session_answers`: not after a load that has failed.
-/

namespace Cwhost.HostSession

open Lib
open Pef (PEF)

variable {M : ByteMemory} {l : HostSession M}

/-! ## Runs -/

/-- `P` holds of every operation of a run, at the session it is called on. -/
def AllAlong (P : Op M → HostSession M → Prop) : List (Op M) → HostSession M → Prop
  | [], _ => True
  | op :: ops, l => P op l ∧ AllAlong P ops (op.step l)

/-- Properties that agree on the sessions a run goes through. -/
theorem AllAlong.congr {P Q : Op M → HostSession M → Prop} {J : HostSession M → Prop}
    (hJ : ∀ (op : Op M) (l : HostSession M), J l → J (op.step l))
    (hiff : ∀ (op : Op M) (l : HostSession M), J l → (P op l ↔ Q op l)) :
    ∀ (ops : List (Op M)) (l : HostSession M), J l → (AllAlong P ops l ↔ AllAlong Q ops l)
  | [], _, _ => Iff.rfl
  | op :: ops, l, hl => and_congr (hiff op l hl) (congr hJ hiff ops _ (hJ op l hl))

/-- **Quiet**: the operation runs no guest code; a request raises `HostError`, a `close` returns and
does nothing. -/
def Quiet (op : Op M) (l : HostSession M) : Prop :=
  (op.step l).guestCalls = l.guestCalls ∧
    match op with
    | .load _ => True
    | .request code b => ∃ e l', request code b l = .error e l' ∧ e.isHostError = true
    | .close main term => close main term l = .ok () l

/-! ## What the checks refuse -/

/-- `load` up to the first guest code it runs. -/
def firstCall (p : LoadRun M) : EStateM Exc (HostSession M) Unit := do
  let fragment ← loadFragment p
  match ← MonadExcept.ofExcept fragment.initTvector with
  | some tvector => enter tvector
  | none => do
    let (_, _, tvector) ← prepareFlags fragment
    enter tvector

/-- **Refused**: `load` finds the session loaded before, or raises before its first guest call; a
request finds no fragment, no context, a terminated session or no main routine. -/
def Refused (op : Op M) (l : HostSession M) : Prop :=
  match op with
  | .load p => l.session.state ≠ .new ∨ ∃ e l', firstCall p l = .error e l'
  | .request _ _ =>
    l.session.ctxPtr = none ∨ l.session.state = .terminated ∨
      match l.fragment with
      | none => True
      | some fragment => ∃ e, fragment.mainTvector = .error e ∧ e.isHostError = true
  | .close _ _ => True

/-! ## How often guest code is run -/

theorem ignores_guestCalls :
    Ignores fun l l' : HostSession M => l'.guestCalls = l.guestCalls where
  toSteps := .same HostSession.guestCalls
  session _ _ := rfl
  fragment _ _ := rfl
  scratch _ _ := rfl
  textBuffers _ _ := rfl
  licenseTokens _ _ := rfl
  secretWords _ _ := rfl

theorem tracks_guestCalls :
    Tracks fun l l' : HostSession M => l.guestCalls ≤ l'.guestCalls where
  toSteps := .count HostSession.guestCalls
  session _ _ := Nat.le_refl _
  fragment _ _ := Nat.le_refl _
  scratch _ _ := Nat.le_refl _
  textBuffers _ _ := Nat.le_refl _
  licenseTokens _ _ := Nat.le_refl _
  secretWords _ _ := Nat.le_refl _
  guestCalls _ := Nat.le_succ _
  store _ _ _ := Nat.le_refl _
  create _ _ _ := Nat.le_refl _

/-- Guest code that is run counts. -/
theorem run_counts (b : HostRun M) (l : HostSession M) :
    l.guestCalls < (endState (run b l)).guestCalls := by
  have hi := tracks_guestCalls (M := M)
  have hrest : Along (fun l l' : HostSession M => l.guestCalls ≤ l'.guestCalls)
      (runEvents b.events >>= fun _ => MonadExcept.ofExcept b.ending) :=
    .bind hi.toSteps (runEvents_along hi _) fun _ => .ofExcept hi.toSteps _
  exact hrest { l with guestCalls := l.guestCalls + 1 }

/-- `x` runs guest code exactly when `y` ends normally, and nothing otherwise. -/
def Enters {α : Type} (y : EStateM Exc (HostSession M) Unit) (x : EStateM Exc (HostSession M) α) :
    Prop :=
  ∀ l, ((∃ e l', y l = .error e l') ∧ (endState (x l)).guestCalls = l.guestCalls) ∨
    ((∃ l', y l = .ok () l') ∧ l.guestCalls < (endState (x l)).guestCalls)

namespace Enters

variable {α β : Type}

/-- A host part in front. -/
theorem after {x₀ : EStateM Exc (HostSession M) β} {y : β → EStateM Exc (HostSession M) Unit}
    {x : β → EStateM Exc (HostSession M) α}
    (h₀ : Along (fun l l' : HostSession M => l'.guestCalls = l.guestCalls) x₀)
    (h : ∀ b, Enters (y b) (x b)) : Enters (x₀ >>= y) (x₀ >>= x) := by
  intro l
  have hsame := h₀ l
  cases hx : x₀ l with
  | error e l' =>
    rw [hx] at hsame
    left
    refine ⟨⟨e, l', bind_of_error y hx⟩, ?_⟩
    rw [endState_bind_error x hx]
    exact hsame
  | ok b l' =>
    rw [hx] at hsame
    have hsame : l'.guestCalls = l.guestCalls := hsame
    rw [endState_bind_ok hx, bind_of_ok hx, ← hsame]
    exact h b l'

/-- **A guest call**, and anything after it. -/
theorem call (tvector : Nat) (b : HostRun M) {k : Nat → EStateM Exc (HostSession M) α}
    (hk : ∀ r, Along (fun l l' : HostSession M => l.guestCalls ≤ l'.guestCalls) (k r)) :
    Enters (enter tvector) (guestCall tvector b >>= k) := by
  intro l
  have hsame := enter_along ignores_guestCalls tvector l
  rw [guestCall, bind_assoc]
  cases hx : enter tvector l with
  | error e l' =>
    rw [hx] at hsame
    left
    rw [endState_bind_error _ hx]
    exact ⟨⟨e, l', rfl⟩, hsame⟩
  | ok u l' =>
    rw [hx] at hsame
    have hsame : l'.guestCalls = l.guestCalls := hsame
    right
    refine ⟨⟨l', rfl⟩, ?_⟩
    rw [endState_bind_ok hx, ← hsame]
    have hrun := run_counts b l'
    cases hr : run b l' with
    | error e l'' =>
      rw [hr] at hrun
      rw [endState_bind_error k hr]
      exact hrun
    | ok r l'' =>
      rw [hr] at hrun
      rw [endState_bind_ok hr]
      exact Nat.lt_of_lt_of_le hrun (hk r l'')

end Enters

/-- **`load` runs guest code** exactly when it gets to its first guest call. -/
theorem load_enters (p : LoadRun M) :
    Enters (firstCall p) (do
      let fragment ← loadFragment p
      runInitialization fragment p
      readPlugin fragment p
      onSession (modify fun s : Session M => { s with state := .loaded })) := by
  have hi := tracks_guestCalls (M := M).toIgnores
  have hrest : ∀ fragment : Pef.Fragment, Along
      (fun l l' : HostSession M => l.guestCalls ≤ l'.guestCalls) (do
        readPlugin fragment p
        onSession (modify fun s : Session M => { s with state := .loaded })) := fun fragment =>
    .bind hi.toSteps (readPlugin_along tracks_guestCalls _ _) fun _ => onSession_along hi _
  refine .after (loadFragment_along ignores_guestCalls p) fun fragment => ?_
  rw [runInitialization, bind_assoc]
  refine .after (.ofExcept ignores_guestCalls.toSteps _) fun entry => ?_
  cases entry with
  | some tvector =>
    dsimp only
    rw [bind_assoc]
    refine .call tvector _ fun result => .bind hi.toSteps ?_ fun _ => hrest fragment
    exact .ite (.throw hi.toSteps _) (.pure hi.toSteps _)
  | none =>
    rw [pure_bind, readPlugin, bind_assoc]
    refine .after (prepareFlags_along ignores_guestCalls fragment) fun flags => ?_
    rw [bind_assoc]
    refine .call flags.2.2 _ fun _ => .bind hi.toSteps ?_ fun _ => onSession_along hi _
    exact readAnswers_along tracks_guestCalls _ _ _ _

/-- Reading the routine descriptor fails in the emulator only. -/
theorem enter_error (tvector : Nat) (l : HostSession M) :
    wp (enter tvector) (fun _ _ => True) (fun e _ => e = .ucError) l := by
  have hread : ∀ (address : Nat) (l : HostSession M),
      wp (onGuest (Guest.u32 address)) (fun _ _ => True) (fun e _ => e = .ucError) l := by
    intro address l
    rw [wp_onGuest]
    simp only [Guest.u32, Guest.read, wp_bind, wp_get]
    split <;> simp
  rw [enter, wp_bind]
  refine wp_mono (hread _ l) (fun _ l' _ => ?_) fun _ _ h => h
  rw [wp_bind]
  exact wp_mono (hread _ l') (fun _ _ _ => trivial) fun _ _ h => h

/-- A request that gets to the main routine runs guest code, or the emulator refuses. -/
theorem request_of_main {fragment : Pef.Fragment} {tvector : Nat}
    (hf : l.fragment = some fragment) (hctx : l.session.ctxPtr ≠ none)
    (hst : l.session.state ≠ .terminated) (hmain : fragment.mainTvector = .ok tvector)
    (code : Int) (b : HostRun M) :
    l.guestCalls < (endState (request code b l)).guestCalls ∨
      ∃ l', request code b l = .error .ucError l' := by
  rw [request_eq hf hctx hst hmain]
  have hsame : (l.begun code).guestCalls = l.guestCalls := rfl
  rw [← hsame]
  rcases Enters.call tvector b (fun r => finishRequest_along tracks_guestCalls code r)
    (l.begun code) with
    ⟨⟨e, l', he⟩, -⟩ | ⟨-, hlt⟩
  · have hucError : e = .ucError := by
      have h := wp_of_error (enter_error tvector _) he
      exact h
    right
    refine ⟨l', ?_⟩
    rw [guestCall, bind_assoc, bind_of_error _ he, hucError]
  · exact Or.inl hlt

theorem load_quiet_iff (p : LoadRun M) (l : HostSession M) :
    Quiet (.load p) l ↔ Refused (.load p) l := by
  have hload : (Op.load p).step l = endState (load p l) := rfl
  rw [Quiet, Refused, hload, and_iff_left trivial]
  by_cases hnew : l.session.state = .new
  · rw [load, bind_of_ok (get_eq l), if_neg (not_not.mpr hnew)]
    rcases load_enters p l with ⟨he, hsame⟩ | ⟨⟨l', hok⟩, hlt⟩
    · exact iff_of_true hsame (Or.inr he)
    · refine iff_of_false (Nat.ne_of_gt hlt) ?_
      rintro (h | ⟨e, l'', he⟩)
      · exact h hnew
      · rw [hok] at he
        cases he
  · rw [load, bind_of_ok (get_eq l), if_pos hnew]
    exact iff_of_true rfl (Or.inl hnew)

/-- A request that raises before any guest code runs. -/
theorem quiet_of_error {code : Int} {b : HostRun M} {e : Exc} {l' : HostSession M}
    (h : request code b l = .error e l') (hsame : l'.guestCalls = l.guestCalls) :
    Quiet (.request code b) l ↔ e.isHostError = true := by
  constructor
  · rintro ⟨-, e', l'', he, herr⟩
    rw [h] at he
    cases he
    exact herr
  · intro herr
    refine ⟨?_, e, l', h, herr⟩
    show (endState (discard (request code b) l)).guestCalls = l.guestCalls
    rw [endState_discard, h]
    exact hsame

theorem request_quiet_iff (code : Int) (b : HostRun M) (l : HostSession M) :
    Quiet (.request code b) l ↔ Refused (.request code b) l := by
  by_cases hctx : l.session.ctxPtr = none
  · have h : request code b l = .error (.hostError "session is not loaded") l := by
      rw [request, bind_of_ok (get_eq l), hctx]
      cases l.fragment <;> rfl
    exact iff_of_true ((quiet_of_error h rfl).mpr rfl) (Or.inl hctx)
  obtain ⟨ctx, hctx'⟩ := Option.ne_none_iff_exists'.mp hctx
  cases hf : l.fragment with
  | none =>
    have h : request code b l = .error (.hostError "session is not loaded") l := by
      rw [request, bind_of_ok (get_eq l), hf]
      rfl
    refine iff_of_true ((quiet_of_error h rfl).mpr rfl) (Or.inr (Or.inr ?_))
    rw [hf]
    trivial
  | some fragment =>
    by_cases hst : l.session.state = .terminated
    · have h : request code b l = .error (.pluginError "request after termination") l := by
        rw [request, bind_of_ok (get_eq l), hf, hctx']
        dsimp only
        rw [if_pos hst]
        rfl
      exact iff_of_true ((quiet_of_error h rfl).mpr rfl) (Or.inr (Or.inl hst))
    have hrefused : Refused (.request code b) l ↔
        ∃ e, fragment.mainTvector = .error e ∧ e.isHostError = true := by
      rw [Refused, hf, or_iff_right hctx, or_iff_right hst]
    rw [hrefused]
    cases hmain : fragment.mainTvector with
    | error e =>
      have h : ∃ l', request code b l = .error e l' ∧ l'.guestCalls = l.guestCalls := by
        rw [request, bind_of_ok (get_eq l), hf, hctx']
        dsimp only
        rw [if_neg hst, hmain]
        exact ⟨_, rfl, rfl⟩
      obtain ⟨l', h, hsame⟩ := h
      rw [quiet_of_error h hsame]
      constructor
      · intro herr
        exact ⟨e, rfl, herr⟩
      · rintro ⟨e', he', herr⟩
        cases he'
        exact herr
    | ok tvector =>
      refine iff_of_false ?_ (by simp)
      rintro ⟨hsame, e, l', he, herr⟩
      have hsame : (endState (discard (request code b) l)).guestCalls = l.guestCalls := hsame
      rw [endState_discard] at hsame
      rcases request_of_main hf hctx hst hmain code b with hlt | ⟨l'', hl''⟩
      · exact absurd hsame (Nat.ne_of_gt hlt)
      · rw [hl''] at he
        cases he
        cases herr

/-- **On a closed session** an operation is quiet exactly when one of its own checks refuses it. -/
theorem step_quiet_iff (op : Op M) (hl : l.closed = true) : Quiet op l ↔ Refused op l := by
  cases op with
  | load p => exact load_quiet_iff p l
  | request code b => exact request_quiet_iff code b l
  | close main term =>
    have hclose : close main term l = .ok () l := by
      rw [close, bind_of_ok (get_eq l), if_pos hl]
      rfl
    refine iff_of_true ⟨?_, hclose⟩ trivial
    show (endState (close main term l)).guestCalls = l.guestCalls
    rw [hclose]
    rfl

/-! ## Runs after `close` -/

/-- A session that is closed stays closed. -/
theorem tracks_closed : Tracks fun l l' : HostSession M => l'.closed = l.closed where
  toSteps := .same HostSession.closed
  session _ _ := rfl
  fragment _ _ := rfl
  scratch _ _ := rfl
  textBuffers _ _ := rfl
  licenseTokens _ _ := rfl
  secretWords _ _ := rfl
  guestCalls _ := rfl
  store _ _ _ := rfl
  create _ _ _ := rfl

/-- **Every `close` closes**, however it ends. -/
theorem close_closed (main term : HostRun M) (l : HostSession M) :
    (endState (close main term l)).closed = true := by
  rw [close, bind_of_ok (get_eq l)]
  by_cases hl : l.closed = true
  · rw [if_pos hl]
    exact hl
  · rw [if_neg hl, endState_finallyDo]
    rfl

theorem step_closed (op : Op M) (hl : l.closed = true) : (op.step l).closed = true := by
  cases op with
  | load p => exact (load_along tracks_closed p l).trans hl
  | request code b => exact ((request_along tracks_closed code b).discard l).trans hl
  | close main term => exact close_closed main term l

/-- **Close is not terminal**: of the operations that follow a `close`, in any run and however they
end, all are quiet exactly when each of them is refused by its own checks. -/
theorem closed_quiet_iff (before later : List (Op M)) (main term : HostRun M)
    (start : HostSession M) :
    let l := (Op.close main term).step (after before start)
    AllAlong Quiet later l ↔ AllAlong Refused later l :=
  AllAlong.congr (fun op _ hl => step_closed op hl) (fun op _ hl => step_quiet_iff op hl) later _
    (close_closed main term _)

/-- **A terminated session is done**: once it is closed, every operation leaves it as it is. -/
theorem step_of_terminated (op : Op M) (hl : l.closed = true)
    (hst : l.session.state = .terminated) : op.step l = l ∧ Refused op l := by
  cases op with
  | load p =>
    have hstate : l.session.state ≠ .new := by simp [hst]
    refine ⟨?_, Or.inl hstate⟩
    show endState (load p l) = l
    rw [load, bind_of_ok (get_eq l), if_pos hstate]
    rfl
  | request code b =>
    refine ⟨?_, Or.inr (Or.inl hst)⟩
    show endState (discard (request code b) l) = l
    rw [endState_discard, request, bind_of_ok (get_eq l)]
    cases l.fragment with
    | none => rfl
    | some fragment =>
      cases l.session.ctxPtr with
      | none => rfl
      | some ctx =>
        dsimp only
        rw [if_pos hst]
        rfl
  | close main term =>
    refine ⟨?_, trivial⟩
    show endState (close main term l) = l
    rw [close, bind_of_ok (get_eq l), if_pos hl]
    rfl

/-- After a `close` that leaves the session terminated, close is terminal. -/
theorem terminated_quiet (hl : l.closed = true) (hst : l.session.state = .terminated) :
    ∀ later : List (Op M), AllAlong Quiet later l
  | [] => trivial
  | op :: later => by
    obtain ⟨hstep, hrefused⟩ := step_of_terminated op hl hst
    refine ⟨(step_quiet_iff op hl).mpr hrefused, ?_⟩
    rw [hstep]
    exact terminated_quiet hl hst later

/-! ## A run that goes on after `close` -/

/-- A container with one code section, at whose start both the initialisation and the main routine
are. -/
def twoRoutines : List UInt8 :=
  PEF.joy ++ PEF.peff ++ List.replicate 24 0 ++ [0, 2] ++ List.replicate 6 0 ++
    (List.replicate 8 0 ++ [0, 0, 0, 8] ++ [0, 0, 0, 8] ++ [0, 0, 0, 8] ++ [0, 0, 0, 96] ++
      List.replicate 4 0) ++
    (List.replicate 16 0 ++ [0, 0, 0, 56] ++ [0, 0, 0, 104] ++ [4, 0, 0, 0]) ++
    List.replicate 8 0 ++
    (List.replicate 16 0 ++ [0xFF, 0xFF, 0xFF, 0xFF, 0, 0, 0, 0] ++ List.replicate 12 0 ++
      [0, 0, 0, 56] ++ [0, 0, 0, 56] ++ [0, 0, 0, 56] ++ List.replicate 8 0)

/-- Loading it, with an initialisation routine that fails. -/
def failedLoad : LoadRun .paged where
  slots := .ok .empty
  container := .ok twoRoutines
  resources := .ok ()
  containerSize := .ok twoRoutines.length
  initialization := ⟨[], .ok 1⟩
  getDropInFlags := ⟨[], .ok 0⟩
  getTargetList := ⟨[], .ok 0⟩
  getDefaultMappingList := ⟨[], .ok 0⟩

/-- The session after the failed load, closed. -/
def closedAfterFailure : HostSession .paged :=
  (Op.close ⟨[], .ok 0⟩ ⟨[], .ok 0⟩).step (after [.load failedLoad] (new freshHeap []))

/-- A request whose main routine answers. -/
def answered : Op .paged :=
  .request reqInitialize ⟨[.base (.donePluginRequest Guest.scratchBase 0)], .ok 0⟩

theorem closedAfterFailure_calls :
    closedAfterFailure.guestCalls = 1 ∧ (answered.step closedAfterFailure).guestCalls = 2 := by
  decide +kernel

/-- **A closed session answers**: the load fails in the initialisation routine, the session is
closed, and a request runs the main routine. -/
theorem closed_session_answers :
    newHeap { uc := (⟨[], fun _ => 0⟩ : ByteMemory.Paged) } = .ok freshHeap freshHeap.guest ∧
      closedAfterFailure.closed = true ∧ ¬ AllAlong Quiet [answered] closedAfterFailure := by
  have hclosed := close_closed ⟨[], .ok 0⟩ ⟨[], .ok 0⟩
    (after [.load failedLoad] (new freshHeap []))
  refine ⟨newHeap_fresh, hclosed, ?_⟩
  rintro ⟨⟨hsame, -⟩, -⟩
  obtain ⟨hbefore, hafter⟩ := closedAfterFailure_calls
  rw [hbefore, hafter] at hsame
  cases hsame

end Cwhost.HostSession
