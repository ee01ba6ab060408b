import Cwhost.Abi.Records
import Cwhost.Lib.Along
import Cwhost.Lib.MemoryRuns
import Cwhost.Pef.Loader
import Cwhost.Session.Request

/-!
# A session from `load` to `close` (`session.py`, `Session`; `pluginlib.py`)

`HostSession` adds to the state of the requests what the rest of a session's life reads and writes:
the loaded fragment, the scratch region, the texts handed to the plug-in and the objects and texts
it has handed back, and `_closed`. It also keeps three records of its own, which the code does not
have and nothing in it reads: how often guest code was run, and what was stored, call by call.

* `load`, `request`, `close`: the life of a session. `Op`, `after`: a run of them.
* `HostCallback`: the callbacks of a request, with those that store objects and texts.
* `Ignores`, `Tracks`, `Lasts`: relations between states that the parts respect, and for each part
  the lemma that says so. `after_along`: for whole runs.

Premises: what the plug-in does in a call is any list of callbacks and stores, with any end
(`HostRun`); an end may be any exception, an interrupt included.

Out of scope: trace files (`trace`, `trace_code`), which nothing modelled reads.
-/

namespace Cwhost

open Lib

/-- `ObjectData`. -/
structure ObjectData where
  bytes : List UInt8
  browse : List UInt8
  codesize : Int
  udatasize : Int
  idatasize : Int
  dependencies : List (List (Str × Value))

/-- `Session`, whole: the requests' part, what the callbacks keep, and what the plug-in has stored.
-/
structure HostSession (M : ByteMemory) where
  session : Session M
  /-- `fragment`. -/
  fragment : Option Pef.Fragment
  /-- `guest._scratch`. -/
  scratch : Nat
  /-- `_text_buffers`. -/
  textBuffers : Dict Nat (List UInt8)
  /-- `_license_tokens`. -/
  licenseTokens : Dict Nat Nat
  /-- `_secret_words`; `_secret_buffers` has the same keys. -/
  secretWords : Dict Str Nat
  objects : Dict Int ObjectData
  texts : Dict Str (List UInt8)
  /-- `_closed`. -/
  closed : Bool
  /-- How often guest code was run. -/
  guestCalls : Nat
  /-- What `CWStoreObjectData` has stored, and under which index. -/
  stored : List (Int × ObjectData)
  /-- What `CWCreateNewTextDocument` has stored, and under which name. -/
  created : List (Str × List UInt8)

/-- The text of `_state`. -/
def SessionState.text : SessionState → String
  | .new => "new"
  | .loaded => "loaded"
  | .initialized => "initialized"
  | .terminated => "terminated"

/-- `REQ_COMPILE`. -/
def reqCompile : Int := 0

/-- What the plug-in makes happen in the host: the callbacks of a request, with those that hand
texts and objects over. `CWFindAndLoadFile` is `findAndLoadFile` from the file it has found on; what
it then writes for the plug-in are stores. -/
inductive HostCallback (M : ByteMemory)
  | base (event : Callback M)
  | storeObjectData (context : Nat) (which : UInt32) (object : Nat)
  | createNewTextDocument (context doc : Nat)
  | getMainFileText (context textOut lengthOut : Nat) (data : Except Exc (List UInt8))
  | findAndLoadFile (context : Nat) (data : Except Exc (List UInt8))
  | releaseFileText (context ptr : Nat)
  | checkoutLicense (context cookieOut : Nat)
  | secretGetNamedPreferences (context : Nat) (name : Str) (output : Nat)

/-- One run of guest code: what it makes happen, and how it ends. -/
structure HostRun (M : ByteMemory) where
  events : List (HostCallback M)
  ending : Except Exc Nat

/-- What `load` finds outside the session, and what the plug-in's routines do. -/
structure LoadRun (M : ByteMemory) where
  /-- The trap slots of the callbacks. -/
  slots : Except Exc (Dict Str Nat)
  /-- The bytes of the plug-in file. -/
  container : Except Exc (List UInt8)
  /-- The plug-in's resource fork, opened and put into the chain. -/
  resources : Except Exc Unit
  /-- `stat().st_size` of the plug-in file. -/
  containerSize : Except Exc Nat
  initialization : HostRun M
  getDropInFlags : HostRun M
  getTargetList : HostRun M
  getDefaultMappingList : HostRun M

namespace HostSession

variable {M : ByteMemory}

/-- The guest and the heap of a new session. -/
def newHeap : EStateM Exc (Guest M) (Heap M) := do
  Guest.init
  Heap.init Guest.heapBase (256 <<< 20)

/-- The heap of a new session, on memory that holds zeros. -/
def freshHeap : Heap .paged where
  guest :=
    { uc := (⟨[(Guest.heapBase, 256 <<< 20), (Guest.scratchBase, Guest.scratchSize),
        (Guest.stackTop - Guest.stackSize, Guest.stackSize), (Guest.trapBase, Guest.trapSize)],
        fun _ => 0⟩ : ByteMemory.Paged) }
  base := Guest.heapBase
  size := 256 <<< 20
  freeList := [(Guest.heapBase, 256 <<< 20)]
  allocations := .empty

theorem newHeap_fresh :
    newHeap { uc := (⟨[], fun _ => 0⟩ : ByteMemory.Paged) } = .ok freshHeap freshHeap.guest := rfl

/-- The constructors map the trap page and the scratch region. -/
theorem newHeap_maps (g : Guest M) :
    wp newHeap (fun heap _ =>
      ByteMemory.MappedRange heap.guest.uc Guest.trapBase Guest.trapSize ∧
      ByteMemory.MappedRange heap.guest.uc Guest.scratchBase Guest.scratchSize)
      (fun _ _ => True) g := by
  simp only [newHeap, Guest.init, Heap.init, wp_bind, wp_ite, wp_throw, wp_pure, wp_get]
  refine wp_mono (Guest.map_spec _ _ _ g) (fun _ g₁ h₁ => ?_) fun _ _ h => h
  refine wp_mono (Guest.map_spec _ _ _ g₁) (fun _ g₂ h₂ => ?_) fun _ _ h => h
  refine wp_mono (Guest.map_spec _ _ _ g₂) (fun _ g₃ h₃ => ?_) fun _ _ h => h
  refine ⟨fun _ => trivial, fun _ => ⟨fun _ => trivial, fun _ => ?_⟩⟩
  refine wp_mono (Guest.map_spec _ _ _ g₃) (fun _ g₄ h₄ => ?_) fun _ _ h => h
  exact ⟨fun x hx hx' => h₄.2 x (h₃.2 x (h₂.2 x (h₁.1 x hx hx'))),
    fun x hx hx' => h₄.2 x (h₃.1 x hx hx')⟩

/-- The heap of a new session, at its default base. -/
theorem newHeap_wf (g : Guest M) :
    wp newHeap (fun heap _ => heap.WF ∧ heap.base = Guest.heapBase ∧ heap.size = 256 <<< 20)
      (fun _ _ => True) g := by
  rw [newHeap, wp_bind]
  refine wp_mono (wp_self Guest.init g) (fun _ g₁ _ => ?_) fun _ _ _ => trivial
  refine wp_mono (Heap.init_spec _ _ g₁) (fun heap _ h => ?_) fun _ _ h => h
  exact ⟨h.1, h.2.2.1, h.2.2.2.1⟩

/-- The state the constructors leave. -/
def new (heap : Heap M) (panels : List (Str × List UInt8)) : HostSession M where
  session := .new heap panels
  fragment := none
  scratch := Guest.scratchBase
  textBuffers := .empty
  licenseTokens := .empty
  secretWords := .empty
  objects := .empty
  texts := .empty
  closed := false
  guestCalls := 0
  stored := []
  created := []

/-- Run an operation of the requests' part. -/
def onSession {α : Type} (x : EStateM Exc (Session M) α) : EStateM Exc (HostSession M) α :=
  zoom HostSession.session (fun l s => { l with session := s }) x

/-- Run an operation of the handle tables. -/
def onTables {α : Type} (x : EStateM Exc (HandleTables M) α) : EStateM Exc (HostSession M) α :=
  onSession (Session.onTables x)

/-- Run an operation of the guest. -/
def onGuest {α : Type} (x : EStateM Exc (Guest M) α) : EStateM Exc (HostSession M) α :=
  onTables (HandleTables.onGuest x)

/-- `guest`. -/
def guest (l : HostSession M) : Guest M := l.session.tables.classic.heap.guest

/-- The session with another guest. -/
def withGuest (l : HostSession M) (g : Guest M) : HostSession M :=
  let classic := { l.session.tables.classic with
    heap := { l.session.tables.classic.heap with guest := g } }
  { l with session := { l.session with tables := { l.session.tables with classic := classic } } }

@[simp] theorem textBuffers_withGuest (l : HostSession M) (g : Guest M) :
    (l.withGuest g).textBuffers = l.textBuffers := rfl

theorem wp_onGuest {l : HostSession M} {α : Type} {x : EStateM Exc (Guest M) α}
    {Q : α → HostSession M → Prop} {E : Exc → HostSession M → Prop} :
    wp (onGuest x) Q E l ↔
      wp x (fun a g => Q a (l.withGuest g)) (fun e g => E e (l.withGuest g)) l.guest := by
  simp only [onGuest, onTables, onSession, Session.onTables, HandleTables.onGuest,
    HandleTables.onHandles, Handles.onGuest, Handles.onHeap, Heap.onGuest, wp_zoom]
  rfl

/-- `_check_context`. -/
def checkContext (context : Nat) : EStateM Exc (HostSession M) Unit :=
  onSession (Session.checkContext context)

/-! ## The scratch region -/

/-- `Guest.alloc`. -/
def alloc (size align : Nat) : EStateM Exc (HostSession M) Nat := do
  if align = 0 ∨ align &&& (align - 1) ≠ 0 then
    throw (.hostError s!"invalid guest allocation size/alignment: {size}/{align}")
  let l ← get
  let address := Guest.alignUp l.scratch align
  let stop := address + max size 1
  if stop > Guest.scratchBase + Guest.scratchSize then
    throw (.hostError "guest scratch allocation exhausted")
  set { l with scratch := stop }
  return address

/-- `_text_pointer`. -/
def textPointer (data : List UInt8) : EStateM Exc (HostSession M) Nat := do
  let pointer ← alloc (data.length + 1) 4
  if data ≠ [] then
    onGuest (Guest.write pointer data)
  onGuest (Guest.w8 (pointer + data.length) 0)
  modify fun l => { l with textBuffers := l.textBuffers.set pointer data }
  return pointer

/-- `CWReleaseFileText`. -/
def cwReleaseFileText (context ptr : Nat) : EStateM Exc (HostSession M) Unit := do
  checkContext context
  modify fun l => { l with textBuffers := l.textBuffers.erase ptr }

/-- `CWGetMainFileText`; `data` is what reading the file gives, nothing without a file. -/
def cwGetMainFileText (context textOut lengthOut : Nat) (data : Except Exc (List UInt8)) :
    EStateM Exc (HostSession M) Unit := do
  checkContext context
  let data ← MonadExcept.ofExcept data
  let ptr ← textPointer data
  onGuest (Guest.w32 textOut ptr)
  onGuest (Guest.w32 lengthOut data.length)

/-- `CWFindAndLoadFile`, from the file found on. -/
def cwFindAndLoadFile (context : Nat) (data : Except Exc (List UInt8)) :
    EStateM Exc (HostSession M) Unit := do
  checkContext context
  let data ← MonadExcept.ofExcept data
  discard (textPointer data)

/-! ## Tokens and preferences in the scratch region -/

/-- `CWCheckoutLicense`. -/
def cwCheckoutLicense (context cookieOut : Nat) : EStateM Exc (HostSession M) Unit := do
  checkContext context
  if cookieOut ≠ 0 then
    let l ← get
    match l.licenseTokens.get? cookieOut with
    | some token => onGuest (Guest.w32 cookieOut token)
    | none => do
      let token ← alloc 4 4
      onGuest (Guest.w32 token 0x4C494345)
      modify fun l => { l with licenseTokens := l.licenseTokens.set cookieOut token }
      onGuest (Guest.w32 cookieOut token)

/-- `_secret_pointer` for a name without a pointer yet. -/
def newSecretPointer (name : Str) : EStateM Exc (HostSession M) Nat := do
  let l ← get
  match l.session.panels.lookup name with
  | none => throw (.hostError s!"unknown secret preferences {pyRepr name}")
  | some data => do
    let block ← alloc (max 1 data.length) 4
    if data ≠ [] then
      onGuest (Guest.write block data)
    let word ← alloc 4 4
    onGuest (Guest.w32 word block)
    modify fun l => { l with secretWords := l.secretWords.set name word }
    return word

/-- `_secret_pointer`. -/
def secretPointer (name : Str) : EStateM Exc (HostSession M) Nat := do
  let l ← get
  match l.secretWords.get? name with
  | some word => return word
  | none => newSecretPointer name

/-- `CWSecretGetNamedPreferences`, from the decoded name on. -/
def cwSecretGetNamedPreferences (context : Nat) (name : Str) (output : Nat) :
    EStateM Exc (HostSession M) Unit := do
  checkContext context
  let pointer ← secretPointer name
  onGuest (Guest.w32 output pointer)

/-! ## What the plug-in hands over -/

/-- The loop of `_cstr`, for at most `fuel` bytes. -/
def cstrLoop (start : Nat) : Nat → Nat → List UInt8 → EStateM Exc (HostSession M) (List UInt8)
  | 0, _, _ => throw (.hostError s!"unterminated C string at {hex start}")
  | fuel + 1, ptr, data => do
    let byte ← onGuest (Guest.u8 ptr)
    if byte = 0 then return data
    else cstrLoop start fuel (ptr + 1) (data ++ [UInt8.ofNat byte])

/-- `_cstr`. -/
def cstr (ptr : Nat) : EStateM Exc (HostSession M) (List UInt8) :=
  if ptr = 0 then pure [] else cstrLoop ptr (1 <<< 20) ptr []

/-- `read_attached`. -/
def readAttached (value : Nat) : EStateM Exc (HostSession M) (List UInt8) := do
  if value = 0 then
    return []
  let l ← get
  if (l.session.tables.cwHandles.get? value).isSome then
    onTables (HandleTables.cwHandleBytes value)
  else
    let size ← onTables (mapError
      (fun e => if e.isHostError then
        .hostError s!"invalid attached memory block {hex value}" else e)
      (HandleTables.onHandles (Handles.blockSize value)))
    onGuest (Guest.read value size)

/-- The loop over the dependencies, for `count` of them from `address` on. -/
def readDependencies : Nat → Nat → EStateM Exc (HostSession M) (List (List (Str × Value)))
  | 0, _ => pure []
  | count + 1, address => do
    let dependency ← onGuest (cwDependencyInfo.unpack address)
    let rest ← readDependencies count (address + cwDependencyInfo.size)
    return dependency :: rest

/-- `deps`. -/
def objectDependencies (obj : List (Str × Value)) :
    EStateM Exc (HostSession M) (List (List (Str × Value))) :=
  if intField obj "dependencies" ≠ 0 then
    readDependencies (intField obj "dependencyCount").toNat (intField obj "dependencies").toNat
  else pure []

/-- `CWStoreObjectData`. -/
def cwStoreObjectData (context : Nat) (which : UInt32) (object : Nat) :
    EStateM Exc (HostSession M) Unit := do
  checkContext context
  let obj ← onGuest (cwObjectData.unpack object)
  let raw ← readAttached (intField obj "objectdata").toNat
  let browse ← readAttached (intField obj "browsedata").toNat
  let deps ← objectDependencies obj
  let data : ObjectData :=
    { bytes := raw
      browse := browse
      codesize := intField obj "codesize"
      udatasize := intField obj "udatasize"
      idatasize := intField obj "idatasize"
      dependencies := deps }
  modify fun l =>
    { l with
      objects := l.objects.set (signed32 which) data
      stored := l.stored ++ [(signed32 which, data)] }

/-- The name of a new text document. -/
def documentName (ptr : Nat) : EStateM Exc (HostSession M) Str := do
  if ptr = 0 then return "untitled".toList
  else
    let raw ← cstr ptr
    return decodeMacRoman raw

/-- The text of a new text document. -/
def documentText (ptr : Nat) : EStateM Exc (HostSession M) (List UInt8) := do
  let l ← get
  if (l.session.tables.cwHandles.get? ptr).isSome then
    onTables (HandleTables.cwHandleBytes ptr)
  else cstr ptr

/-- `CWCreateNewTextDocument`. -/
def cwCreateNewTextDocument (context doc : Nat) : EStateM Exc (HostSession M) Unit := do
  checkContext context
  let info ← onGuest (cwNewTextDocumentInfo.unpack doc)
  let name ← documentName (intField info "documentname").toNat
  let data ← documentText (intField info "text").toNat
  modify fun l =>
    { l with texts := l.texts.set name data, created := l.created ++ [(name, data)] }

end HostSession

/-- The host side of an event. -/
def HostCallback.call {M : ByteMemory} : HostCallback M → EStateM Exc (HostSession M) Unit
  | base event => HostSession.onSession event.call
  | storeObjectData context which object => HostSession.cwStoreObjectData context which object
  | createNewTextDocument context doc => HostSession.cwCreateNewTextDocument context doc
  | getMainFileText context textOut lengthOut data =>
    HostSession.cwGetMainFileText context textOut lengthOut data
  | findAndLoadFile context data => HostSession.cwFindAndLoadFile context data
  | releaseFileText context ptr => HostSession.cwReleaseFileText context ptr
  | checkoutLicense context cookieOut => HostSession.cwCheckoutLicense context cookieOut
  | secretGetNamedPreferences context name output =>
    HostSession.cwSecretGetNamedPreferences context name output

namespace HostSession

variable {M : ByteMemory}

/-! ## Running guest code -/

/-- The callbacks of a run, one after the other; the first exception ends it. -/
def runEvents : List (HostCallback M) → EStateM Exc (HostSession M) Unit
  | [] => pure ()
  | event :: events => do
    event.call
    runEvents events

/-- The part of `guest.call` before the guest runs: the two words of the routine descriptor. -/
def enter (tvector : Nat) : EStateM Exc (HostSession M) Unit := do
  let _ ← onGuest (Guest.u32 tvector)
  let _ ← onGuest (Guest.u32 (tvector + 4))

/-- The guest runs. -/
def run (b : HostRun M) : EStateM Exc (HostSession M) Nat := do
  modify fun l => { l with guestCalls := l.guestCalls + 1 }
  runEvents b.events
  MonadExcept.ofExcept b.ending

/-- `guest.call`. -/
def guestCall (tvector : Nat) (b : HostRun M) : EStateM Exc (HostSession M) Nat := do
  enter tvector
  run b

/-! ## `load` -/

/-- `b"MW C-C++ PPC"`, with its length before it. -/
def pluginName : List UInt8 :=
  [12, 0x4D, 0x57, 0x20, 0x43, 0x2D, 0x43, 0x2B, 0x2B, 0x20, 0x50, 0x50, 0x43]

/-- `_write_init_block`. -/
def writeInitBlock (imageBase containerSize : Nat) : EStateM Exc (HostSession M) Nat := do
  let block ← alloc 36 4
  let name ← alloc pluginName.length 1
  onGuest do
    Guest.write name pluginName
    Guest.w32 block 1
    Guest.w32 (block + 4) 1
    Guest.w32 (block + 8) 1
    Guest.w32 (block + 12) 0
    Guest.w32 (block + 16) imageBase
    Guest.w32 (block + 20) containerSize
    Guest.w8 (block + 24) 0
    Guest.w8 (block + 25) 0
    Guest.w16 (block + 26) 0
    Guest.w32 (block + 28) name
    Guest.w32 (block + 32) 0
  return block

/-- Read `n` pieces of `size` bytes, `stride` bytes apart. -/
def readEach (size stride : Nat) : Nat → Nat → EStateM Exc (Guest M) Unit
  | 0, _ => pure ()
  | n + 1, address => do
    let _ ← Guest.read address size
    readEach size stride n (address + stride)

/-- `_decode_target_list`, which nothing reads afterwards. -/
def decodeTargetList (pointer : Nat) : EStateM Exc (Guest M) Unit := do
  let _ ← Guest.u16 pointer
  let cpuCount ← Guest.u16 (pointer + 2)
  let cpus ← Guest.u32 (pointer + 4)
  let osCount ← Guest.u16 (pointer + 8)
  let oss ← Guest.u32 (pointer + 10)
  if cpus ≠ 0 then
    readEach 4 4 cpuCount cpus
  if oss ≠ 0 then
    readEach 4 4 osCount oss

/-- The loop of `_decode_mapping_list`, from mapping `i` on. -/
def decodeMappings (pointer : Nat) : Nat → Nat → EStateM Exc (Guest M) Unit
  | 0, _ => pure ()
  | n + 1, i => do
    let mappings ← Guest.u32 (pointer + 4)
    let address := mappings + i * 72
    let _ ← Guest.read address 4
    let _ ← Guest.read (address + 4) 32
    let _ ← Guest.u32 (address + 36)
    let _ ← Guest.read (address + 40) 32
    decodeMappings pointer n (i + 1)

/-- `_decode_mapping_list`, which nothing reads afterwards. -/
def decodeMappingList (pointer : Nat) : EStateM Exc (Guest M) Unit := do
  let _ ← Guest.u16 pointer
  let count ← Guest.u16 (pointer + 2)
  decodeMappings pointer count 0

/-- A word of scratch memory, set to zero. -/
def newWord : EStateM Exc (HostSession M) Nat := do
  let pointer ← alloc 4 4
  onGuest (Guest.w32 pointer 0)
  return pointer

/-- The fragment is loaded. -/
def setFragment (fragment : Pef.Fragment) (l : HostSession M) : HostSession M :=
  { l with
    fragment := some fragment
    session := { l.session with fragment := some ⟨fragment.mainTvector.toOption⟩ } }

/-- The first part of `load`: the context, the fragment and the initialisation block. -/
def loadFragment (p : LoadRun M) : EStateM Exc (HostSession M) Pef.Fragment := do
  let ctx ← alloc 64 4
  onSession (modify fun s => { s with ctxPtr := some ctx })
  let slots ← MonadExcept.ofExcept p.slots
  let container ← MonadExcept.ofExcept p.container
  let fragment ← onGuest (Pef.load container slots)
  modify (setFragment fragment)
  MonadExcept.ofExcept p.resources
  let containerSize ← MonadExcept.ofExcept p.containerSize
  let _ ← writeInitBlock fragment.imageBase containerSize
  return fragment

/-- The plug-in's initialisation routine, when it has one. -/
def runInitialization (fragment : Pef.Fragment) (p : LoadRun M) :
    EStateM Exc (HostSession M) Unit := do
  match ← MonadExcept.ofExcept fragment.initTvector with
  | some tvector =>
    let result ← guestCall tvector p.initialization
    if result ≠ 0 then
      throw (.pluginError s!"plug-in initialization failed with {result}")
  | none => pure ()

/-- Before `CWPlugin_GetDropInFlags`: its two words, and the routine itself. -/
def prepareFlags (fragment : Pef.Fragment) : EStateM Exc (HostSession M) (Nat × Nat × Nat) := do
  let flagsPtr ← alloc 4 4
  let flagsSize ← alloc 4 4
  onGuest (Guest.w32 flagsPtr 0)
  onGuest (Guest.w32 flagsSize 0)
  let tvector ← MonadExcept.ofExcept (fragment.tvector "CWPlugin_GetDropInFlags".toList)
  return (flagsPtr, flagsSize, tvector)

/-- The rest of `load`, from what `CWPlugin_GetDropInFlags` has answered on. -/
def readAnswers (fragment : Pef.Fragment) (p : LoadRun M) (flagsPtr flagsSize : Nat) :
    EStateM Exc (HostSession M) Unit := do
  let actualSize ← onGuest (Guest.u32 flagsSize)
  if actualSize ≠ dropInFlags.size then
    throw (.pluginError
      s!"unexpected DropInFlags size {actualSize}, expected {dropInFlags.size}")
  let flags ← onGuest (Guest.u32 flagsPtr)
  let _ ← onGuest (dropInFlags.unpack flags)
  let targetPtr ← newWord
  let tvector ← MonadExcept.ofExcept (fragment.tvector "CWPlugin_GetTargetList".toList)
  let _ ← guestCall tvector p.getTargetList
  let target ← onGuest (Guest.u32 targetPtr)
  onGuest (decodeTargetList target)
  let mappingPtr ← newWord
  let tvector ← MonadExcept.ofExcept (fragment.tvector "CWPlugin_GetDefaultMappingList".toList)
  let _ ← guestCall tvector p.getDefaultMappingList
  let mapping ← onGuest (Guest.u32 mappingPtr)
  onGuest (decodeMappingList mapping)

/-- What the plug-in says about itself. -/
def readPlugin (fragment : Pef.Fragment) (p : LoadRun M) : EStateM Exc (HostSession M) Unit := do
  let (flagsPtr, flagsSize, tvector) ← prepareFlags fragment
  let _ ← guestCall tvector p.getDropInFlags
  readAnswers fragment p flagsPtr flagsSize

/-- `load`. -/
def load (p : LoadRun M) : EStateM Exc (HostSession M) Unit := do
  let l ← get
  if l.session.state ≠ .new then
    throw (.hostError s!"session cannot load in state {l.session.state.text}")
  let fragment ← loadFragment p
  runInitialization fragment p
  readPlugin fragment p
  onSession (modify fun s => { s with state := .loaded })

/-! ## `request` and `close` -/

/-- The rest of `request`, from what the main routine has returned on. -/
def finishRequest (code : Int) (result : Nat) : EStateM Exc (HostSession M) Int := do
  let l ← get
  if l.session.doneCount ≠ 1 then
    throw (.pluginError
      s!"request {code} returned without exactly one CWDonePluginRequest")
  let done := l.session.done.getD result
  onTables HandleTables.freeRequestHandles
  onSession (modify fun s =>
    { s with state := Session.nextState code s.state, current := none })
  return done

/-- `request`, with the behaviour of the main routine. -/
def request (code : Int) (b : HostRun M) : EStateM Exc (HostSession M) Int := do
  let l ← get
  match l.fragment, l.session.ctxPtr with
  | some fragment, some _ =>
    if l.session.state = .terminated then
      throw (.pluginError "request after termination")
    onSession (modify (Session.begin code))
    let tvector ← MonadExcept.ofExcept fragment.mainTvector
    let result ← guestCall tvector b
    finishRequest code result
  | _, _ => throw (.hostError "session is not loaded")

/-- The session as a request sets it up for the main routine. -/
def begun (code : Int) (l : HostSession M) : HostSession M :=
  { l with session := Session.begin code l.session }

/-- A request that no check refuses. -/
theorem request_eq {l : HostSession M} {fragment : Pef.Fragment} {tvector : Nat}
    (hf : l.fragment = some fragment) (hctx : l.session.ctxPtr ≠ none)
    (hst : l.session.state ≠ .terminated) (hmain : fragment.mainTvector = .ok tvector)
    (code : Int) (b : HostRun M) :
    request code b l = (guestCall tvector b >>= finishRequest code) (l.begun code) := by
  obtain ⟨ctx, hctx⟩ := Option.ne_none_iff_exists'.mp hctx
  have hbegin : onSession (modify (Session.begin code)) l = .ok ⟨⟩ (l.begun code) := rfl
  rw [request, bind_of_ok (get_eq l), hf, hctx]
  dsimp only
  rw [if_neg hst, bind_of_ok hbegin, hmain]
  rfl

/-- The request to terminate, of an initialised session. -/
def requestTermination (main : HostRun M) : EStateM Exc (HostSession M) Unit := do
  let l ← get
  if l.session.state = .initialized then
    discard (request reqTerminate main)

/-- The termination routine, when the session has got so far and the plug-in has one. -/
def runTermination (term : HostRun M) : EStateM Exc (HostSession M) Unit := do
  let l ← get
  match l.session.state, l.fragment with
  | .initialized, some fragment | .terminated, some fragment =>
    match ← MonadExcept.ofExcept fragment.termTvector with
    | some tvector =>
      let result ← guestCall tvector term
      if result ≠ 0 then
        throw (.pluginError s!"plug-in termination failed with {result}")
    | none => pure ()
  | _, _ => pure ()

/-- The body of `close`. -/
def terminate (main term : HostRun M) : EStateM Exc (HostSession M) Unit := do
  requestTermination main
  runTermination term

/-- `close`, with the behaviours of the main routine and of the termination routine. `guest.close`
closes trace files. -/
def close (main term : HostRun M) : EStateM Exc (HostSession M) Unit := do
  let l ← get
  if l.closed then
    return
  finallyDo (terminate main term) (modify fun l => { l with closed := true })

/-! ## Whole lives -/

/-- The operations on a session. -/
inductive Op (M : ByteMemory)
  | load (p : LoadRun M)
  | request (code : Int) (b : HostRun M)
  | close (main term : HostRun M)

namespace Op

/-- The call itself. -/
def call : Op M → EStateM Exc (HostSession M) Unit
  | load p => HostSession.load p
  | request code b => discard (HostSession.request code b)
  | close main term => HostSession.close main term

/-- The session after an operation, however it ended. -/
def step (op : Op M) (l : HostSession M) : HostSession M := endState (op.call l)

end Op

/-- The session after a run. -/
def after (ops : List (Op M)) (l : HostSession M) : HostSession M :=
  ops.foldl (fun l op => op.step l) l

/-! ## What the parts leave alone -/

/-- A relation that does not look at what the host parts of a session's life write. -/
structure Ignores (R : HostSession M → HostSession M → Prop) : Prop extends Steps R where
  session : ∀ l s, R l { l with session := s }
  fragment : ∀ l f, R l (setFragment f l)
  scratch : ∀ l n, R l { l with scratch := n }
  textBuffers : ∀ l b, R l { l with textBuffers := b }
  licenseTokens : ∀ l d, R l { l with licenseTokens := d }
  secretWords : ∀ l d, R l { l with secretWords := d }

section Host

variable {R : HostSession M → HostSession M → Prop}

theorem onSession_along (hR : Ignores R) {α : Type} (x : EStateM Exc (Session M) α) :
    Along R (onSession x) := .zoom hR.session

theorem onGuest_along (hR : Ignores R) {α : Type} (x : EStateM Exc (Guest M) α) :
    Along R (onGuest x) := onSession_along hR _

theorem alloc_along (hR : Ignores R) (size align : Nat) :
    Along R (alloc size align : EStateM Exc (HostSession M) Nat) := by
  intro l
  rw [alloc]
  by_cases hbad : align = 0 ∨ align &&& (align - 1) ≠ 0
  · rw [if_pos hbad]
    exact hR.refl l
  · rw [if_neg hbad]
    show R l (endState ((if _ > _ then _ else _ : EStateM Exc (HostSession M) Nat) l))
    by_cases hfull : Guest.alignUp l.scratch align + max size 1 >
        Guest.scratchBase + Guest.scratchSize
    · rw [if_pos hfull]
      exact hR.refl l
    · rw [if_neg hfull]
      exact hR.scratch l _

theorem textPointer_along (hR : Ignores R) (data : List UInt8) :
    Along R (textPointer data : EStateM Exc (HostSession M) Nat) := by
  have hrest : ∀ pointer, Along R (do
      onGuest (Guest.w8 (pointer + data.length) 0)
      modify fun l : HostSession M => { l with textBuffers := l.textBuffers.set pointer data }
      return pointer) := fun pointer =>
    .bind hR.toSteps (onGuest_along hR _) fun _ =>
      .bind hR.toSteps (.modify fun l => hR.textBuffers l _) fun _ => .pure hR.toSteps _
  refine .bind hR.toSteps (alloc_along hR _ _) fun pointer => ?_
  split
  · exact .bind hR.toSteps (onGuest_along hR _) fun _ => hrest pointer
  · exact hrest pointer

theorem checkoutLicense_along (hR : Ignores R) (context cookieOut : Nat) :
    Along R (cwCheckoutLicense context cookieOut : EStateM Exc (HostSession M) Unit) := by
  refine .bind hR.toSteps (onSession_along hR _) fun _ => .ite ?_ (.pure hR.toSteps _)
  refine .bind hR.toSteps (.get hR.toSteps) fun l => ?_
  cases l.licenseTokens.get? cookieOut with
  | some token => exact onGuest_along hR _
  | none =>
    refine .bind hR.toSteps (alloc_along hR _ _) fun token => ?_
    refine .bind hR.toSteps (onGuest_along hR _) fun _ => ?_
    exact .bind hR.toSteps (.modify fun l => hR.licenseTokens l _) fun _ => onGuest_along hR _

theorem secretPointer_along (hR : Ignores R) (name : Str) :
    Along R (secretPointer name : EStateM Exc (HostSession M) Nat) := by
  have hword : ∀ block, Along R (do
      let word ← alloc 4 4
      onGuest (Guest.w32 word block)
      modify fun l : HostSession M => { l with secretWords := l.secretWords.set name word }
      return word) := fun block =>
    .bind hR.toSteps (alloc_along hR _ _) fun word =>
      .bind hR.toSteps (onGuest_along hR _) fun _ =>
        .bind hR.toSteps (.modify fun l => hR.secretWords l _) fun _ => .pure hR.toSteps _
  refine .bind hR.toSteps (.get hR.toSteps) fun l => ?_
  cases l.secretWords.get? name with
  | some word => exact .pure hR.toSteps _
  | none =>
    refine .bind hR.toSteps (.get hR.toSteps) fun l => ?_
    cases l.session.panels.lookup name with
    | none => exact .throw hR.toSteps _
    | some data =>
      refine .bind hR.toSteps (alloc_along hR _ _) fun block => .ite ?_ (hword block)
      exact .bind hR.toSteps (onGuest_along hR _) fun _ => hword block

theorem enter_along (hR : Ignores R) (tvector : Nat) :
    Along R (enter tvector : EStateM Exc (HostSession M) Unit) :=
  .bind hR.toSteps (onGuest_along hR _) fun _ =>
    .bind hR.toSteps (onGuest_along hR _) fun _ => .pure hR.toSteps _

theorem writeInitBlock_along (hR : Ignores R) (imageBase containerSize : Nat) :
    Along R (writeInitBlock imageBase containerSize : EStateM Exc (HostSession M) Nat) :=
  .bind hR.toSteps (alloc_along hR _ _) fun _ => .bind hR.toSteps (alloc_along hR _ _) fun _ =>
    .bind hR.toSteps (onGuest_along hR _) fun _ => .pure hR.toSteps _

theorem newWord_along (hR : Ignores R) : Along R (newWord : EStateM Exc (HostSession M) Nat) :=
  .bind hR.toSteps (alloc_along hR _ _) fun _ =>
    .bind hR.toSteps (onGuest_along hR _) fun _ => .pure hR.toSteps _

theorem loadFragment_along (hR : Ignores R) (p : LoadRun M) : Along R (loadFragment p) := by
  refine .bind hR.toSteps (alloc_along hR _ _) fun ctx => ?_
  refine .bind hR.toSteps (onSession_along hR _) fun _ => ?_
  refine .bind hR.toSteps (.ofExcept hR.toSteps _) fun slots => ?_
  refine .bind hR.toSteps (.ofExcept hR.toSteps _) fun container => ?_
  refine .bind hR.toSteps (onGuest_along hR _) fun fragment => ?_
  refine .bind hR.toSteps (.modify fun l => hR.fragment l fragment) fun _ => ?_
  refine .bind hR.toSteps (.ofExcept hR.toSteps _) fun _ => ?_
  refine .bind hR.toSteps (.ofExcept hR.toSteps _) fun size => ?_
  exact .bind hR.toSteps (writeInitBlock_along hR _ _) fun _ => .pure hR.toSteps _

theorem prepareFlags_along (hR : Ignores R) (fragment : Pef.Fragment) :
    Along R (prepareFlags fragment : EStateM Exc (HostSession M) (Nat × Nat × Nat)) := by
  refine .bind hR.toSteps (alloc_along hR _ _) fun _ => ?_
  refine .bind hR.toSteps (alloc_along hR _ _) fun _ => ?_
  refine .bind hR.toSteps (onGuest_along hR _) fun _ => ?_
  refine .bind hR.toSteps (onGuest_along hR _) fun _ => ?_
  exact .bind hR.toSteps (.ofExcept hR.toSteps _) fun _ => .pure hR.toSteps _

theorem cstrLoop_along (hR : Ignores R) (start fuel ptr : Nat) (data : List UInt8) :
    Along R (cstrLoop start fuel ptr data : EStateM Exc (HostSession M) (List UInt8)) := by
  induction fuel generalizing ptr data with
  | zero => exact .throw hR.toSteps _
  | succ fuel ih =>
    exact .bind hR.toSteps (onGuest_along hR _) fun _ => .ite (.pure hR.toSteps _) (ih _ _)

theorem cstr_along (hR : Ignores R) (ptr : Nat) :
    Along R (cstr ptr : EStateM Exc (HostSession M) (List UInt8)) :=
  .ite (.pure hR.toSteps _) (cstrLoop_along hR _ _ _ _)

theorem readAttached_along (hR : Ignores R) (value : Nat) :
    Along R (readAttached value : EStateM Exc (HostSession M) (List UInt8)) := by
  refine .ite (.pure hR.toSteps _) (.bind hR.toSteps (.get hR.toSteps) fun l => .ite ?_ ?_)
  · exact onSession_along hR _
  · exact .bind hR.toSteps (onSession_along hR _) fun _ => onGuest_along hR _

theorem readDependencies_along (hR : Ignores R) (count address : Nat) :
    Along R (readDependencies count address :
      EStateM Exc (HostSession M) (List (List (Str × Value)))) := by
  induction count generalizing address with
  | zero => exact .pure hR.toSteps _
  | succ count ih =>
    exact .bind hR.toSteps (onGuest_along hR _) fun _ =>
      .bind hR.toSteps (ih _) fun _ => .pure hR.toSteps _

theorem documentName_along (hR : Ignores R) (ptr : Nat) :
    Along R (documentName ptr : EStateM Exc (HostSession M) Str) :=
  .ite (.pure hR.toSteps _) (.bind hR.toSteps (cstr_along hR _) fun _ => .pure hR.toSteps _)

end Host

/-- A relation that also looks at no guest call, and follows what the plug-in stores. -/
structure Tracks (R : HostSession M → HostSession M → Prop) : Prop extends Ignores R where
  guestCalls : ∀ l, R l { l with guestCalls := l.guestCalls + 1 }
  store : ∀ l which data, R l
    { l with objects := l.objects.set which data, stored := l.stored ++ [(which, data)] }
  create : ∀ l name data, R l
    { l with texts := l.texts.set name data, created := l.created ++ [(name, data)] }

section Guest

variable {R : HostSession M → HostSession M → Prop}

theorem storeObjectData_along (hR : Tracks R) (context : Nat) (which : UInt32) (object : Nat) :
    Along R (cwStoreObjectData context which object : EStateM Exc (HostSession M) Unit) := by
  have hi := hR.toIgnores
  refine .bind hi.toSteps (onSession_along hi _) fun _ => ?_
  refine .bind hi.toSteps (onGuest_along hi _) fun obj => ?_
  refine .bind hi.toSteps (readAttached_along hi _) fun raw => ?_
  refine .bind hi.toSteps (readAttached_along hi _) fun browse => ?_
  refine .bind hi.toSteps (.ite (readDependencies_along hi _ _) (.pure hi.toSteps _)) fun deps => ?_
  exact .modify fun l => hR.store l _ _

theorem createNewTextDocument_along (hR : Tracks R) (context doc : Nat) :
    Along R (cwCreateNewTextDocument context doc : EStateM Exc (HostSession M) Unit) := by
  have hi := hR.toIgnores
  refine .bind hi.toSteps (onSession_along hi _) fun _ => ?_
  refine .bind hi.toSteps (onGuest_along hi _) fun info => ?_
  refine .bind hi.toSteps (documentName_along hi _) fun name => ?_
  refine .bind hi.toSteps (.bind hi.toSteps (.get hi.toSteps) fun l => ?_) fun data =>
    .modify fun l => hR.create l _ _
  exact .ite (onSession_along hi _) (cstr_along hi _)

/-- **Every callback**, however it ends. -/
theorem call_along (hR : Tracks R) (event : HostCallback M) : Along R event.call := by
  have hi := hR.toIgnores
  cases event with
  | base event => exact onSession_along hi _
  | storeObjectData context which object => exact storeObjectData_along hR _ _ _
  | createNewTextDocument context doc => exact createNewTextDocument_along hR _ _
  | getMainFileText context textOut lengthOut data =>
    refine .bind hi.toSteps (onSession_along hi _) fun _ => ?_
    refine .bind hi.toSteps (.ofExcept hi.toSteps _) fun data => ?_
    refine .bind hi.toSteps (textPointer_along hi _) fun ptr => ?_
    exact .bind hi.toSteps (onGuest_along hi _) fun _ => onGuest_along hi _
  | findAndLoadFile context data =>
    refine .bind hi.toSteps (onSession_along hi _) fun _ => ?_
    refine .bind hi.toSteps (.ofExcept hi.toSteps _) fun data => ?_
    exact .discard (textPointer_along hi _)
  | releaseFileText context ptr =>
    exact .bind hi.toSteps (onSession_along hi _) fun _ => .modify fun l => hi.textBuffers l _
  | checkoutLicense context cookieOut => exact checkoutLicense_along hi _ _
  | secretGetNamedPreferences context name output =>
    refine .bind hi.toSteps (onSession_along hi _) fun _ => ?_
    exact .bind hi.toSteps (secretPointer_along hi _) fun pointer => onGuest_along hi _

theorem runEvents_along (hR : Tracks R) (events : List (HostCallback M)) :
    Along R (runEvents events) := by
  induction events with
  | nil => exact .pure hR.toSteps _
  | cons event events ih => exact .bind hR.toSteps (call_along hR event) fun _ => ih

theorem run_along (hR : Tracks R) (b : HostRun M) : Along R (run b) := by
  refine .bind hR.toSteps (.modify hR.guestCalls) fun _ => ?_
  exact .bind hR.toSteps (runEvents_along hR _) fun _ => .ofExcept hR.toSteps _

theorem guestCall_along (hR : Tracks R) (tvector : Nat) (b : HostRun M) :
    Along R (guestCall tvector b) :=
  .bind hR.toSteps (enter_along hR.toIgnores _) fun _ => run_along hR b

theorem finishRequest_along (hR : Tracks R) (code : Int) (result : Nat) :
    Along R (finishRequest code result : EStateM Exc (HostSession M) Int) := by
  have hi := hR.toIgnores
  refine .bind hi.toSteps (.get hi.toSteps) fun l => .ite (.throw hi.toSteps _) ?_
  refine .bind hi.toSteps (onSession_along hi _) fun _ => ?_
  exact .bind hi.toSteps (onSession_along hi _) fun _ => .pure hi.toSteps _

/-- **A request**, however it ends. -/
theorem request_along (hR : Tracks R) (code : Int) (b : HostRun M) : Along R (request code b) := by
  have hi := hR.toIgnores
  refine .bind hi.toSteps (.get hi.toSteps) fun l => ?_
  split
  · refine .ite (.throw hi.toSteps _) ?_
    refine .bind hi.toSteps (onSession_along hi _) fun _ => ?_
    refine .bind hi.toSteps (.ofExcept hi.toSteps _) fun tvector => ?_
    exact .bind hi.toSteps (guestCall_along hR _ _) fun result => finishRequest_along hR _ _
  · exact .throw hi.toSteps _

theorem readAnswers_along (hR : Tracks R) (fragment : Pef.Fragment) (p : LoadRun M)
    (flagsPtr flagsSize : Nat) : Along R (readAnswers fragment p flagsPtr flagsSize) := by
  have hi := hR.toIgnores
  refine .bind hi.toSteps (onGuest_along hi _) fun actualSize => .ite (.throw hi.toSteps _) ?_
  refine .bind hi.toSteps (onGuest_along hi _) fun flags => ?_
  refine .bind hi.toSteps (onGuest_along hi _) fun _ => ?_
  refine .bind hi.toSteps (newWord_along hi) fun targetPtr => ?_
  refine .bind hi.toSteps (.ofExcept hi.toSteps _) fun tvector => ?_
  refine .bind hi.toSteps (guestCall_along hR _ _) fun _ => ?_
  refine .bind hi.toSteps (onGuest_along hi _) fun target => ?_
  refine .bind hi.toSteps (onGuest_along hi _) fun _ => ?_
  refine .bind hi.toSteps (newWord_along hi) fun mappingPtr => ?_
  refine .bind hi.toSteps (.ofExcept hi.toSteps _) fun tvector => ?_
  refine .bind hi.toSteps (guestCall_along hR _ _) fun _ => ?_
  exact .bind hi.toSteps (onGuest_along hi _) fun mapping => onGuest_along hi _

theorem readPlugin_along (hR : Tracks R) (fragment : Pef.Fragment) (p : LoadRun M) :
    Along R (readPlugin fragment p) :=
  .bind hR.toSteps (prepareFlags_along hR.toIgnores _) fun _ =>
    .bind hR.toSteps (guestCall_along hR _ _) fun _ => readAnswers_along hR _ _ _ _

theorem runInitialization_along (hR : Tracks R) (fragment : Pef.Fragment) (p : LoadRun M) :
    Along R (runInitialization fragment p) := by
  refine .bind hR.toSteps (.ofExcept hR.toSteps _) fun entry => ?_
  cases entry with
  | none => exact .pure hR.toSteps _
  | some tvector =>
    refine .bind hR.toSteps (guestCall_along hR _ _) fun result => ?_
    exact .ite (.throw hR.toSteps _) (.pure hR.toSteps _)

/-- **Loading**, however it ends. -/
theorem load_along (hR : Tracks R) (p : LoadRun M) : Along R (load p) := by
  have hi := hR.toIgnores
  refine .bind hi.toSteps (.get hi.toSteps) fun l => .ite (.throw hi.toSteps _) ?_
  refine .bind hi.toSteps (loadFragment_along hi p) fun fragment => ?_
  refine .bind hi.toSteps (runInitialization_along hR _ _) fun _ => ?_
  exact .bind hi.toSteps (readPlugin_along hR _ _) fun _ => onSession_along hi _

theorem runTermination_along (hR : Tracks R) (term : HostRun M) :
    Along R (runTermination term) := by
  have hi := hR.toIgnores
  have hentry : ∀ fragment : Pef.Fragment, Along R (do
      match ← (MonadExcept.ofExcept fragment.termTvector :
          EStateM Exc (HostSession M) (Option Nat)) with
      | some tvector =>
        let result ← guestCall tvector term
        if result ≠ 0 then
          throw (.pluginError s!"plug-in termination failed with {result}")
      | none => pure ()) := by
    intro fragment
    refine .bind hi.toSteps (.ofExcept hi.toSteps _) fun entry => ?_
    cases entry with
    | none => exact .pure hi.toSteps _
    | some tvector =>
      refine .bind hi.toSteps (guestCall_along hR _ _) fun result => ?_
      exact .ite (.throw hi.toSteps _) (.pure hi.toSteps _)
  refine .bind hi.toSteps (.get hi.toSteps) fun l => ?_
  split
  · exact hentry _
  · exact hentry _
  · exact .pure hi.toSteps _

/-- **Terminating**, however it ends. -/
theorem terminate_along (hR : Tracks R) (main term : HostRun M) :
    Along R (terminate main term) := by
  have hi := hR.toIgnores
  refine .bind hi.toSteps (.bind hi.toSteps (.get hi.toSteps) fun l => ?_) fun _ =>
    runTermination_along hR term
  exact .ite (.discard (request_along hR _ _)) (.pure hi.toSteps _)

/-- A relation that closing does not break either. -/
structure Lasts (R : HostSession M → HostSession M → Prop) : Prop extends Tracks R where
  closed : ∀ l b, R l { l with closed := b }

/-- **One operation**, however it ends. -/
theorem step_along (hR : Lasts R) (op : Op M) (l : HostSession M) : R l (op.step l) := by
  have ht := hR.toTracks
  cases op with
  | load p => exact load_along ht p l
  | request code b => exact (request_along ht code b).discard l
  | close main term =>
    refine Along.bind ht.toSteps (.get ht.toSteps) (fun l₁ => .ite (.pure ht.toSteps _) ?_) l
    exact .finallyDo ht.toSteps (terminate_along ht _ _) (.modify fun l => hR.closed l _)

/-- **A run.** -/
theorem after_along (hR : Lasts R) (ops : List (Op M)) (l : HostSession M) : R l (after ops l) := by
  induction ops generalizing l with
  | nil => exact hR.refl l
  | cons op ops ih => exact hR.trans (step_along hR op l) (ih _)

end Guest

end HostSession

end Cwhost
