import Cwhost.Lib.Stores
import Cwhost.Session.HostSession

/-!
# What `compile` returns (`api.py`, `compile`)

`compile` takes its output from the end of `objects` or `texts`. A dictionary keeps the place of a
key that is stored again, so the end need not be what was stored last.

* `Recorded`: `objects` and `texts` are what the calls of the session make of empty dictionaries, in
  every state that a run reaches (`recorded_after`).
* `compile_returns_last_iff`: the output is that of the last call exactly when the newest entry, the
  one whose key was stored for the first time last, has the same bytes.
-/

namespace Cwhost.HostSession

open Lib
open Pef (PEF)

variable {M : ByteMemory}

/-! ## `compile` -/

/-- `CompileResult`, without the messages. -/
structure CompileResult where
  status : Int
  output : List UInt8
  deriving DecidableEq

/-- `data`: the output for the flag `options.preprocess`. -/
def compileData (preprocess : Bool) (l : HostSession M) : List UInt8 :=
  if preprocess then l.texts.values.getLast?.getD []
  else match l.objects.values.getLast? with
    | some stored => stored.bytes
    | none => []

/-- The end of the `try` block: what is returned for the status of the compile request. -/
def compileResult (preprocess : Bool) (status : Int) :
    EStateM Exc (HostSession M) CompileResult := do
  let l ← get
  let data := compileData preprocess l
  if status = 0 ∧ data = [] then
    throw (.hostError
      (if preprocess then "compiler produced no preprocessed text"
      else "compiler produced no object data"))
  return { status := status, output := data }

/-- The `try` block of `compile`. -/
def compileBody (preprocess : Bool) (p : LoadRun M) (onInit onCompile : HostRun M) :
    EStateM Exc (HostSession M) CompileResult := do
  load p
  let init ← request reqInitialize onInit
  if init ≠ 0 then
    return { status := init, output := [] }
  else
    let status ← request reqCompile onCompile
    compileResult preprocess status

/-- `compile`, from the new session on, with what the main routine does in the three requests and
the termination routine at the end. -/
def compile (preprocess : Bool) (p : LoadRun M) (onInit onCompile onTerminate term : HostRun M) :
    EStateM Exc (HostSession M) CompileResult :=
  finallyDo (compileBody preprocess p onInit onCompile) (close onTerminate term)

/-! ## The dictionaries and the calls -/

/-- **The dictionaries hold what was stored.** -/
structure Recorded (l : HostSession M) : Prop where
  objects : l.objects = .ofStores l.stored
  texts : l.texts = .ofStores l.created

theorem recorded_new (heap : Heap M) (panels : List (Str × List UInt8)) :
    Recorded (new heap panels) := ⟨rfl, rfl⟩

theorem recorded_lasts : Lasts fun l l' : HostSession M => Recorded l → Recorded l' where
  toSteps := .keeps Recorded
  session _ _ h := ⟨h.objects, h.texts⟩
  fragment _ _ h := ⟨h.objects, h.texts⟩
  scratch _ _ h := ⟨h.objects, h.texts⟩
  textBuffers _ _ h := ⟨h.objects, h.texts⟩
  licenseTokens _ _ h := ⟨h.objects, h.texts⟩
  secretWords _ _ h := ⟨h.objects, h.texts⟩
  guestCalls _ h := ⟨h.objects, h.texts⟩
  closed _ _ h := ⟨h.objects, h.texts⟩
  store l which data h := by
    refine ⟨?_, h.texts⟩
    show l.objects.set which data = _
    rw [h.objects, Dict.ofStores_concat]
  create l name data h := by
    refine ⟨h.objects, ?_⟩
    show l.texts.set name data = _
    rw [h.texts, Dict.ofStores_concat]

/-- **In every state a session reaches** its dictionaries hold what was stored. -/
theorem recorded_after (ops : List (Op M)) (heap : Heap M) (panels : List (Str × List UInt8)) :
    Recorded (after ops (new heap panels)) :=
  after_along recorded_lasts ops _ (recorded_new heap panels)

/-- The calls that store are recorded one after the other. -/
theorem prefix_tracks : Tracks fun l l' : HostSession M =>
    l.stored <+: l'.stored ∧ l.created <+: l'.created where
  refl _ := ⟨List.prefix_rfl, List.prefix_rfl⟩
  trans h h' := ⟨h.1.trans h'.1, h.2.trans h'.2⟩
  session _ _ := ⟨List.prefix_rfl, List.prefix_rfl⟩
  fragment _ _ := ⟨List.prefix_rfl, List.prefix_rfl⟩
  scratch _ _ := ⟨List.prefix_rfl, List.prefix_rfl⟩
  textBuffers _ _ := ⟨List.prefix_rfl, List.prefix_rfl⟩
  licenseTokens _ _ := ⟨List.prefix_rfl, List.prefix_rfl⟩
  secretWords _ _ := ⟨List.prefix_rfl, List.prefix_rfl⟩
  guestCalls _ := ⟨List.prefix_rfl, List.prefix_rfl⟩
  store _ _ _ := ⟨List.prefix_append _ _, List.prefix_rfl⟩
  create _ _ _ := ⟨List.prefix_rfl, List.prefix_append _ _⟩

/-- An object's bytes at the end of the dictionary are those of the newest object. -/
theorem compileData_objects {l : HostSession M} (h : Recorded l) {bytes : List UInt8}
    (hne : bytes ≠ []) :
    compileData false l = bytes ↔ ∃ data, Newest l.stored data ∧ data.bytes = bytes := by
  have hlast : ∀ data, l.objects.values.getLast? = some data ↔ Newest l.stored data := by
    rw [h.objects]
    exact Dict.values_getLast?_ofStores l.stored
  simp only [compileData, Bool.false_eq_true, if_false, ← hlast]
  cases l.objects.values.getLast? with
  | none => exact iff_of_false hne.symm (by simp)
  | some data => simp

/-- The text at the end of the dictionary is the newest. -/
theorem compileData_texts {l : HostSession M} (h : Recorded l) {bytes : List UInt8}
    (hne : bytes ≠ []) : compileData true l = bytes ↔ Newest l.created bytes := by
  rw [compileData, if_pos rfl, h.texts, ← Dict.values_getLast?_ofStores]
  cases (Dict.ofStores l.created).values.getLast? with
  | none => exact iff_of_false hne.symm (by simp)
  | some data => simp

/-! ## Successful compilations -/

section Success

variable {p : LoadRun M} {onInit onCompile onTerminate term : HostRun M}
  {l l₀ l₁ l₂ l₃ : HostSession M}

/-- What `compile` returns when nothing else fails. -/
theorem compile_ok_iff (hload : load p l = .ok () l₀)
    (hinit : request reqInitialize onInit l₀ = .ok 0 l₁)
    (hcompile : request reqCompile onCompile l₁ = .ok 0 l₂)
    (hclose : close onTerminate term l₂ = .ok () l₃) (preprocess : Bool) (bytes : List UInt8) :
    (∃ l', compile preprocess p onInit onCompile onTerminate term l = .ok ⟨0, bytes⟩ l') ↔
      compileData preprocess l₂ = bytes ∧ bytes ≠ [] := by
  have hbody : compileBody preprocess p onInit onCompile l = compileResult preprocess 0 l₂ := by
    rw [compileBody, bind_of_ok hload, bind_of_ok hinit, if_neg (not_not.mpr rfl),
      bind_of_ok hcompile]
  have hresult : compileResult preprocess 0 l₂ =
      if compileData preprocess l₂ = [] then
        .error (.hostError (if preprocess then "compiler produced no preprocessed text"
          else "compiler produced no object data")) l₂
      else .ok ⟨0, compileData preprocess l₂⟩ l₂ := by
    rw [compileResult, bind_of_ok (get_eq l₂)]
    by_cases hempty : compileData preprocess l₂ = []
    · rw [if_pos ⟨rfl, hempty⟩, if_pos hempty]
      rfl
    · rw [if_neg (fun h => hempty h.2), if_neg hempty]
      rfl
  rw [compile, finallyDo, hbody, hresult]
  by_cases hempty : compileData preprocess l₂ = []
  · rw [if_pos hempty]
    dsimp only
    rw [hclose]
    refine iff_of_false (by simp) fun h => ?_
    exact h.2 (h.1.symm.trans hempty)
  · rw [if_neg hempty]
    dsimp only
    rw [hclose]
    constructor
    · rintro ⟨l', h⟩
      cases h
      exact ⟨rfl, hempty⟩
    · rintro ⟨rfl, -⟩
      exact ⟨l₃, rfl⟩

/-- The session after the compile request is one that runs reach. -/
theorem recorded_of_requests {heap : Heap M} {panels : List (Str × List UInt8)}
    (hload : load p (new heap panels) = .ok () l₀)
    (hinit : request reqInitialize onInit l₀ = .ok 0 l₁)
    (hcompile : request reqCompile onCompile l₁ = .ok 0 l₂) : Recorded l₂ := by
  have hafter := recorded_after
    [.load p, .request reqInitialize onInit, .request reqCompile onCompile] heap panels
  have h₀ : (Op.load p).step (new heap panels) = l₀ := congrArg endState hload
  have h₁ : (Op.request reqInitialize onInit).step l₀ = l₁ :=
    (endState_discard _ _).trans (congrArg endState hinit)
  have h₂ : (Op.request reqCompile onCompile).step l₁ = l₂ :=
    (endState_discard _ _).trans (congrArg endState hcompile)
  rw [after, List.foldl_cons, List.foldl_cons, List.foldl_cons, h₀, h₁, h₂] at hafter
  exact hafter

/-- **`compile` returns what was stored last** exactly when the newest entry of the session, the one
whose key was stored for the first time last, ends up with the same bytes: for the objects stored in
the compile request, and for the texts created in it. -/
theorem compile_returns_last_iff {heap : Heap M} {panels : List (Str × List UInt8)}
    (hload : load p (new heap panels) = .ok () l₀)
    (hinit : request reqInitialize onInit l₀ = .ok 0 l₁)
    (hcompile : request reqCompile onCompile l₁ = .ok 0 l₂)
    (hclose : close onTerminate term l₂ = .ok () l₃) :
    ∃ calls texts, l₂.stored = l₁.stored ++ calls ∧ l₂.created = l₁.created ++ texts ∧
      (∀ which data, calls.getLast? = some (which, data) →
        ((∃ l', compile false p onInit onCompile onTerminate term (new heap panels) =
            .ok ⟨0, data.bytes⟩ l') ↔
          data.bytes ≠ [] ∧
            ∃ newest, Newest (l₁.stored ++ calls) newest ∧ newest.bytes = data.bytes)) ∧
      ∀ name text, texts.getLast? = some (name, text) →
        ((∃ l', compile true p onInit onCompile onTerminate term (new heap panels) =
            .ok ⟨0, text⟩ l') ↔
          text ≠ [] ∧ Newest (l₁.created ++ texts) text) := by
  have hrecorded := recorded_of_requests hload hinit hcompile
  have hprefix := request_along prefix_tracks reqCompile onCompile l₁
  rw [hcompile] at hprefix
  obtain ⟨⟨calls, hcalls⟩, texts, htexts⟩ := hprefix
  refine ⟨calls, texts, hcalls.symm, htexts.symm, fun which data _ => ?_, fun name text _ => ?_⟩
  · rw [compile_ok_iff hload hinit hcompile hclose, hcalls, and_comm]
    exact and_congr_right fun hne => compileData_objects hrecorded hne
  · rw [compile_ok_iff hload hinit hcompile hclose, htexts, and_comm]
    exact and_congr_right fun hne => compileData_texts hrecorded hne

/-- The last object is returned when its file index is new in the session. -/
theorem compile_returns_new {heap : Heap M} {panels : List (Str × List UInt8)}
    (hload : load p (new heap panels) = .ok () l₀)
    (hinit : request reqInitialize onInit l₀ = .ok 0 l₁)
    (hcompile : request reqCompile onCompile l₁ = .ok 0 l₂)
    (hclose : close onTerminate term l₂ = .ok () l₃) {earlier : List (Int × ObjectData)}
    {which : Int} {data : ObjectData} (hstored : l₂.stored = earlier ++ [(which, data)])
    (hnew : which ∉ earlier.map Prod.fst) (hne : data.bytes ≠ []) :
    ∃ l', compile false p onInit onCompile onTerminate term (new heap panels) =
      .ok ⟨0, data.bytes⟩ l' := by
  have hrecorded := recorded_of_requests hload hinit hcompile
  refine (compile_ok_iff hload hinit hcompile hclose false data.bytes).mpr ⟨?_, hne⟩
  rw [compileData_objects hrecorded hne, hstored]
  exact ⟨data, newest_concat hnew, rfl⟩

end Success

/-! ## A file index stored twice -/

/-- The names of the routines that `load` calls. -/
def routineNames : List (List UInt8) :=
  ["CWPlugin_GetDropInFlags", "CWPlugin_GetTargetList", "CWPlugin_GetDefaultMappingList"].map
    fun name => name.toList.map fun c => UInt8.ofNat c.toNat

/-- A loader section that exports them, all at the start of the first section, as the main routine
is. -/
def routineLoader : List UInt8 :=
  List.replicate 8 0 ++ ([0xFF, 0xFF, 0xFF, 0xFF] ++ List.replicate 4 0) ++
    ([0xFF, 0xFF, 0xFF, 0xFF] ++ List.replicate 4 0) ++ List.replicate 12 0 ++
    [0, 0, 0, 56] ++ [0, 0, 0, 56] ++ [0, 0, 0, 131] ++ [0, 0, 0, 0] ++ [0, 0, 0, 3] ++
    routineNames.flatten ++ List.replicate 4 0 ++
    [0, 23, 0, 0] ++ [0, 22, 0, 0] ++ [0, 30, 0, 0] ++
    (List.replicate 10 0 ++ ([0, 0, 0, 23] ++ List.replicate 6 0) ++
      ([0, 0, 0, 45] ++ List.replicate 6 0))

/-- A container of a code section and that loader section. -/
def routineContainer : List UInt8 :=
  PEF.joy ++ PEF.peff ++ List.replicate 24 0 ++ [0, 2] ++ List.replicate 6 0 ++
    (List.replicate 8 0 ++ [0, 0, 0, 8] ++ [0, 0, 0, 8] ++ [0, 0, 0, 8] ++ [0, 0, 0, 96] ++
      List.replicate 4 0) ++
    (List.replicate 16 0 ++ [0, 0, 0, 177] ++ [0, 0, 0, 104] ++ [4, 0, 0, 0]) ++
    List.replicate 8 0 ++ routineLoader

/-- Guest code that stores words from an address on. -/
def storeWords (address : Nat) (words : List Nat) : GuestStores .paged where
  run s := ({ s with at_ := fun x =>
    if address ≤ x then ((words.flatMap (toBE 4))[x - address]?).getD (s.at_ x) else s.at_ x } :
    ByteMemory.Paged)
  mapped _ _ := Iff.rfl

/-- Its words, at the addresses that `load` hands out, name a record of zeros. -/
def routineLoad : LoadRun .paged where
  slots := .ok .empty
  container := .ok routineContainer
  resources := .ok ()
  containerSize := .ok routineContainer.length
  initialization := ⟨[], .ok 0⟩
  getDropInFlags := ⟨[.base (.stores (storeWords 0x2A000074 [0x2A001000, 18]))], .ok 0⟩
  getTargetList := ⟨[.base (.stores (storeWords 0x2A00007C [0x2A001000]))], .ok 0⟩
  getDefaultMappingList := ⟨[.base (.stores (storeWords 0x2A000080 [0x2A001000]))], .ok 0⟩

/-- A main routine that only answers. -/
def answering : HostRun .paged := ⟨[.base (.donePluginRequest Guest.scratchBase 0)], .ok 0⟩

/-- Storing the object whose bytes are those of a `CWMemHandle`. -/
def storeHandle (which : UInt32) (handle : Nat) : List (HostCallback .paged) :=
  [.base (.stores (storeWords 0x2A002000 [handle])),
    .storeObjectData Guest.scratchBase which 0x2A002000]

/-- Three panels are read, and stored as the objects 0, 1 and again 0. -/
def storingTwice : HostRun .paged :=
  ⟨[['A'], ['B'], ['C']].map (fun name =>
      .base (.getNamedPreferences Guest.scratchBase name 0x2A002100)) ++
    storeHandle 0 0x30000000 ++ storeHandle 1 0x3000000C ++ storeHandle 0 0x30000018 ++
    [.base (.donePluginRequest Guest.scratchBase 0)], .ok 0⟩

/-- A new session with the three panels. -/
def threePanels : HostSession .paged :=
  new freshHeap [(['A'], [1]), (['B'], [2]), (['C'], [3])]

/-- The requests of `compile` on it, one by one: their results, and what is stored before and after
the compile request. -/
def storedTwice : EStateM Exc (HostSession .paged) (List Int × List (Int × List UInt8)) := do
  load routineLoad
  let init ← request reqInitialize answering
  let before ← get
  let status ← request reqCompile storingTwice
  let after ← get
  close answering answering
  return ([init, before.stored.length, status], after.stored.map fun c => (c.1, c.2.bytes))

theorem storedTwice_run : okValue (storedTwice threePanels) =
    some ([0, 0, 0], [(0, [1]), (1, [2]), (0, [3])]) := by
  decide +kernel

theorem compile_storingTwice :
    okValue (compile false routineLoad answering storingTwice answering answering threePanels) =
      some ⟨0, [2]⟩ := by
  decide +kernel

/-- Each request of `compile` ends normally on it. -/
theorem storingTwice_states : ∃ l₀ l₁ l₂ l₃ : HostSession .paged,
    load routineLoad threePanels = .ok () l₀ ∧
      request reqInitialize answering l₀ = .ok 0 l₁ ∧ l₁.stored = [] ∧
      request reqCompile storingTwice l₁ = .ok 0 l₂ ∧
      l₂.stored.map (fun c => (c.1, c.2.bytes)) = [(0, [1]), (1, [2]), (0, [3])] ∧
      close answering answering l₂ = .ok () l₃ := by
  have hrun := storedTwice_run
  cases hres : storedTwice threePanels with
  | error e l =>
    rw [hres] at hrun
    cases hrun
  | ok r l =>
    rw [hres] at hrun
    obtain rfl := Option.some.inj hrun
    obtain ⟨_, l₀, hload, hres⟩ := exists_of_bind_ok hres
    obtain ⟨init, l₁, hinit, hres⟩ := exists_of_bind_ok hres
    obtain ⟨before, s₁, hget, hres⟩ := exists_of_bind_ok hres
    cases hget
    obtain ⟨status, l₂, hcompile, hres⟩ := exists_of_bind_ok hres
    obtain ⟨after, s₂, hget, hres⟩ := exists_of_bind_ok hres
    cases hget
    obtain ⟨_, l₃, hclose, hres⟩ := exists_of_bind_ok hres
    have hvalue := (EStateM.Result.ok.inj hres).1
    rw [Prod.mk.injEq, List.cons.injEq, List.cons.injEq, List.cons.injEq] at hvalue
    obtain ⟨⟨rfl, hbefore, rfl, -⟩, hstored⟩ := hvalue
    exact ⟨l₀, l₁, l₂, l₃, hload, hinit, List.length_eq_zero_iff.mp (by omega), hcompile, hstored,
      hclose⟩

/-- The objects are stored under 0, 1 and 0, and `compile` returns the second. -/
theorem compile_returns_last_iff_twice : ∃ l₁ l₂ : HostSession .paged, ∃ calls texts,
    l₂.stored = l₁.stored ++ calls ∧ l₂.created = l₁.created ++ texts ∧
      (∀ which data, calls.getLast? = some (which, data) →
        ((∃ l', compile false routineLoad answering storingTwice answering answering threePanels =
            .ok ⟨0, data.bytes⟩ l') ↔ data.bytes ≠ [] ∧
            ∃ newest, Newest (l₁.stored ++ calls) newest ∧ newest.bytes = data.bytes)) ∧
      ∀ name text, texts.getLast? = some (name, text) →
        ((∃ l', compile true routineLoad answering storingTwice answering answering threePanels =
            .ok ⟨0, text⟩ l') ↔ text ≠ [] ∧ Newest (l₁.created ++ texts) text) := by
  obtain ⟨l₀, l₁, l₂, l₃, hload, hinit, -, hcompile, -, hclose⟩ := storingTwice_states
  exact ⟨l₁, l₂, compile_returns_last_iff hload hinit hcompile hclose⟩

/-- **The last object is not returned**: its index was stored before the second object's. -/
theorem last_store_lost : ∃ l₀ l₁ l₂ l₃ l' : HostSession .paged,
    load routineLoad threePanels = .ok () l₀ ∧
      request reqInitialize answering l₀ = .ok 0 l₁ ∧ l₁.stored = [] ∧
      request reqCompile storingTwice l₁ = .ok 0 l₂ ∧
      l₂.stored.map (fun c => (c.1, c.2.bytes)) = [(0, [1]), (1, [2]), (0, [3])] ∧
      close answering answering l₂ = .ok () l₃ ∧
      compile false routineLoad answering storingTwice answering answering threePanels =
        .ok ⟨0, [2]⟩ l' := by
  obtain ⟨l₀, l₁, l₂, l₃, hload, hinit, hnone, hcompile, hstored, hclose⟩ := storingTwice_states
  have hrun := compile_storingTwice
  cases hres : compile false routineLoad answering storingTwice answering answering threePanels with
  | error e l' =>
    rw [hres] at hrun
    cases hrun
  | ok r l' =>
    rw [hres] at hrun
    obtain rfl := Option.some.inj hrun
    exact ⟨l₀, l₁, l₂, l₃, l', hload, hinit, hnone, hcompile, hstored, hclose, rfl⟩

end Cwhost.HostSession
