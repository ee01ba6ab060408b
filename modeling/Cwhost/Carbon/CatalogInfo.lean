import Cwhost.Carbon.System
import Cwhost.Session.FileSpecs
import Cwhost.Vfs.Coherence
import Cwhost.Vfs.Forks

/-!
# FSGetCatalogInfo (`carbon/fsref.py`)

The shim reads a FSRef and writes up to four records about its node: the catalog information, the
name, a FSSpec and the FSRef of the directory. The arguments are the ones `guest.args` unpacks.

* `fsGetCatalogInfo`: the code's. `catalogFsspec` calls it and follows the FSSpec.
* `Following`, `Running`: the files and the memory while the shim runs. Every part of it keeps them
  (`writeCatalog_spec` and its fellows).
* `fsGetCatalogInfo_spec`: it returns exactly when it can describe the node, which takes a name of
  63 bytes, and the FSSpec of the node is then in memory.
* `catalogFsspec_iff`: **exactly when the FSSpec leads back to the node.**

Premises: accessible buffers; a state that reading reaches.
-/

namespace Cwhost.Carbon

open Lib Vfs

/-! ## The code -/

/-- The guest, and the files of the host. -/
structure FileManager (M : ByteMemory) where
  guest : Guest M
  world : Vfs.World

/-- A shim of the File Manager. -/
abbrev FileManagerM (M : ByteMemory) := EStateM Exc (FileManager M)

section Code

variable {M : ByteMemory} {α : Type}

/-- Work in guest memory. -/
def inMemory (x : EStateM Exc (Guest M) α) : FileManagerM M α :=
  zoom FileManager.guest (fun s g => { s with guest := g }) x

/-- Work on the files. -/
def onDisk (x : WorldM α) : FileManagerM M α :=
  zoom FileManager.world (fun s w => { s with world := w }) x

/-- `_set_err`. -/
def setErr (value : Int) : Returned := ⟨value, (value % 2 ^ 32).toNat⟩

/-- `Node.data_fork`. -/
def dataFork (env : HostEnv) (n : Node) : WorldM (List UInt8) :=
  onTree (mapError
    (fun e => .hostError s!"cannot read data fork {String.ofList (pathText n.host)}: {e.text}")
    (readBytes env n.host))

/-- `len(x) if cond else 0`. -/
def lengthIf (cond : Bool) (x : WorldM (List α)) : WorldM Nat :=
  if cond then List.length <$> x else pure 0

/-- What `FSCatalogInfo` is packed from. -/
def catalogItems (isDir : Bool) (vref parentId : Int) (id : Nat) (info : List UInt8)
    (dataLen rsrcLen valence : Nat) : List (Str × Value) :=
  [("nodeFlags".toList, .int (if isDir then 0x8000 else 0)), ("volume".toList, .int vref),
    ("parentDirID".toList, .int parentId), ("nodeID".toList, .int id),
    ("sharingFlags".toList, .int 0), ("userPrivileges".toList, .int 0),
    ("reserved1".toList, .int 0), ("reserved2".toList, .int 0),
    ("createDate".toList, .bytes (List.replicate 8 0)),
    ("contentModDate".toList, .bytes (List.replicate 8 0)),
    ("attributeModDate".toList, .bytes (List.replicate 8 0)),
    ("accessDate".toList, .bytes (List.replicate 8 0)),
    ("backupDate".toList, .bytes (List.replicate 8 0)),
    ("permissions".toList, .bytes (List.replicate 16 0)),
    ("finderInfo".toList, .bytes (info.take 16)),
    ("extFinderInfo".toList, .bytes (List.replicate 16 0)),
    ("dataLogicalSize".toList, .int dataLen), ("dataPhysicalSize".toList, .int dataLen),
    ("rsrcLogicalSize".toList, .int rsrcLen), ("rsrcPhysicalSize".toList, .int rsrcLen),
    ("valence".toList, .int valence), ("textEncodingHint".toList, .int 0)]

/-- The values of the catalog information. -/
def catalogValues (fold : Str → Str) (env : HostEnv) (n : Node) : WorldM (List (Str × Value)) := do
  let spec ← onVfs env fun _ => fsspec n
  let isDir := (← get).tree.isDir n.host
  let dataLen ← lengthIf (!isDir) (dataFork env n)
  let rsrcLen ← lengthIf (!isDir) (resourceFork env n)
  let info ← finderInfo env n
  let valence ← lengthIf isDir (onVfs env (children fold · n))
  return catalogItems isDir spec.1 spec.2.1 n.id info dataLen rsrcLen valence

section Shim

variable (py : Numerals) (fold : Str → Str) (env : HostEnv)

/-- `if catalog_ptr`. -/
def writeCatalog (n : Node) (catalogPtr : Nat) : FileManagerM M Unit := do
  if catalogPtr ≠ 0 then
    let values ← onDisk (catalogValues fold env n)
    inMemory (fsCatalogInfo.pack py catalogPtr values)

/-- `if name_ptr`. -/
def writeName (n : Node) (namePtr : Nat) : FileManagerM M Unit := do
  if namePtr ≠ 0 then
    let text := (← get).world.registry.vfs.nodeName n
    if (nameUnits text).length > 255 then
      throw (.hostError s!"FSRef name too long: {pyRepr text}")
    inMemory (hfsUniStr255.pack py namePtr (uniStrItems (nameUnits text)))

/-- `if spec_ptr`. -/
def writeFsspec (n : Node) (specPtr : Nat) : FileManagerM M Unit := do
  if specPtr ≠ 0 then
    let spec ← onDisk (onVfs env fun _ => fsspec n)
    inMemory (fsSpec.pack py specPtr (fsSpecItems spec.1 spec.2.1 spec.2.2))

/-- `if parent_ptr`. -/
def writeParent (parent : Node) (parentPtr : Nat) : FileManagerM M Unit := do
  if parentPtr ≠ 0 then
    let data ← MonadExcept.ofExcept (encodeFsref parent)
    inMemory (Guest.write parentPtr data)

/-- `FSGetCatalogInfo`. -/
def fsGetCatalogInfo (refPtr catalogPtr namePtr specPtr parentPtr : Nat) :
    FileManagerM M Returned := do
  let data ← inMemory (Guest.read refPtr 80)
  let nodeById := (← get).world.registry.nodeById
  let node ← MonadExcept.ofExcept (decodeFsref nodeById data)
  let parent ← onDisk (onVfs env fun _ => specParent node)
  writeCatalog py fold env node catalogPtr
  writeName py node namePtr
  writeFsspec py env node specPtr
  writeParent parent parentPtr
  return setErr 0

/-- Call the shim, and follow the FSSpec it has written: the volume reference, the directory, and
the Pascal string at the start of the name. -/
def catalogFsspec (refPtr catalogPtr namePtr specPtr parentPtr : Nat) :
    FileManagerM M (Returned × Node) := do
  let returned ← fsGetCatalogInfo py fold env refPtr catalogPtr namePtr specPtr parentPtr
  let values ← inMemory (fsSpec.unpack specPtr)
  let name := bytesField values "name"
  let pascal := name.take ((name.headD 0).toNat + 1)
  let found ← onDisk (onVfs env fun view =>
    nodeFromFsspec fold view (intField values "vRefNum") (intField values "parID") (.bytes pascal))
  return (returned, found)

end Shim

end Code

/-! ## The catalog information -/

section Record

variable {isDir : Bool} {vref parentId : Int} {id dataLen rsrcLen valence : Nat}
  {info : List UInt8}

theorem catalogItems_keys : ∀ key ∈
    (catalogItems isDir vref parentId id info dataLen rsrcLen valence).map Prod.fst,
    key ∈ fsCatalogInfo.layout.map LayoutEntry.field ∧ key ∉ packParameters := by
  have hkeys : (catalogItems isDir vref parentId id info dataLen rsrcLen valence).map Prod.fst =
      fsCatalogInfo.layout.map LayoutEntry.field := rfl
  rw [hkeys]
  decide

theorem catalogItems_takes : fsCatalogInfo.layout.all (LayoutEntry.takes
    (catalogItems isDir vref parentId id info dataLen rsrcLen valence)) = true := by
  rfl

/-- **The catalog information is in its ranges** if the numbers fit in their fields. -/
theorem catalogItems_canonical_iff (hinfo : info.length = 32)
    (hvref : -2 ^ 15 ≤ vref ∧ vref < 2 ^ 15) :
    fsCatalogInfo.Canonical
        (catalogItems isDir vref parentId id info dataLen rsrcLen valence) ↔
      (0 ≤ parentId ∧ parentId < 2 ^ 32) ∧ id < 2 ^ 32 ∧ dataLen < 2 ^ 64 ∧ rsrcLen < 2 ^ 64 ∧
        valence < 2 ^ 32 := by
  have hunsigned : ∀ {k : Nat} {v : Nat}, (0 : Int) ≤ v ∧ (v : Int) < 2 ^ k ↔ v < 2 ^ k := by
    intro k v
    exact ⟨fun h => by exact_mod_cast h.2, fun h => ⟨Int.natCast_nonneg v, by exact_mod_cast h⟩⟩
  constructor
  · rintro ⟨-, -, -, hparent, hid, -, -, -, -, -, -, -, -, -, -, -, -, hdata, -, hrsrc, -,
      hvalence, -⟩
    obtain ⟨_, ⟨⟩, hparent⟩ := hparent _ rfl
    obtain ⟨_, ⟨⟩, hid⟩ := hid _ rfl
    obtain ⟨_, ⟨⟩, hdata⟩ := hdata _ rfl
    obtain ⟨_, ⟨⟩, hrsrc⟩ := hrsrc _ rfl
    obtain ⟨_, ⟨⟩, hvalence⟩ := hvalence _ rfl
    exact ⟨hparent, hunsigned.mp hid, hunsigned.mp hdata, hunsigned.mp hrsrc,
      hunsigned.mp hvalence⟩
  · rintro ⟨hparent, hid, hdata, hrsrc, hvalence⟩
    have hflags : (0 : Int) ≤ (if isDir then 0x8000 else 0) ∧
        (if isDir then 0x8000 else 0) < (2 : Int) ^ 16 := by
      cases isDir <;> decide
    have hfinder : (info.take 16).length = 16 := by
      rw [List.length_take, hinfo]
      rfl
    have hzero : ∀ kind : Scalar, kind.Canonical kind.zero := Scalar.zero_canonical
    have hzeros : ∀ count : Nat, ∃ raw, Value.bytes (List.replicate count 0) = .bytes raw ∧
        raw.length = count := fun count => ⟨_, rfl, List.length_replicate⟩
    have hfield : ∀ {P : Value → Prop} {value : Value}, P value →
        ∀ value', some value = some value' → P value' := by
      rintro P value h _ ⟨⟩
      exact h
    exact ⟨fun key hkey => (catalogItems_keys key hkey).1, hfield ⟨_, rfl, hflags⟩,
      hfield ⟨_, rfl, hvref⟩, hfield ⟨_, rfl, hparent⟩, hfield ⟨_, rfl, hunsigned.mpr hid⟩,
      hfield (hzero .u8), hfield (hzero .u8), hfield (hzero .u8), hfield (hzero .u8),
      hfield (hzeros 8), hfield (hzeros 8), hfield (hzeros 8), hfield (hzeros 8),
      hfield (hzeros 8), hfield (hzeros 16), hfield ⟨_, rfl, hfinder⟩, hfield (hzeros 16),
      hfield ⟨_, rfl, hunsigned.mpr hdata⟩, hfield ⟨_, rfl, hunsigned.mpr hdata⟩,
      hfield ⟨_, rfl, hunsigned.mpr hrsrc⟩, hfield ⟨_, rfl, hunsigned.mpr hrsrc⟩,
      hfield ⟨_, rfl, hunsigned.mpr hvalence⟩, hfield (hzero .u32), trivial⟩

end Record

/-! ## The files while the shim runs -/

/-- The number of elements, counted only if there is reason to; none if they cannot be had. -/
def sizeIf {α : Type} (cond : Bool) (found : Option (List α)) : Option Nat :=
  if cond then found.map List.length else some 0

/-- What the host has to give for the catalog information of `n`: its forks, its Finder info and,
for a directory, its listing, none of them too long for its field. -/
structure Catalogued (fold : Str → Str) (env : HostEnv) (t : Tree) (n : Node) : Prop where
  data : ∃ len, sizeIf (!t.isDir n.host) (okValue (readBytes env n.host t)) = some len ∧
    len < 2 ^ 64
  resource : ∃ len, sizeIf (!t.isDir n.host) (okValue (loadResourceFork env n.host t)) = some len ∧
    len < 2 ^ 64
  info : okValue (loadFinderInfo env n.host t) ≠ none
  valence : ∃ len, sizeIf (t.isDir n.host) (hostEntries fold (t.view env) n.host) = some len ∧
    len < 2 ^ 32

/-- The number that stands for the directory in a FSSpec. -/
def directoryNumber (n p : Node) : Int := if p = n then 2 else p.id

/-- The files are those of `t`, read some more since `s`, and `p` is the directory of `n`. -/
structure Following (fold : Str → Str) (env : HostEnv) (t : Tree) (s : Registry) (n p : Node)
    (w : Vfs.World) : Prop where
  tree : w.tree = t
  reads : Reads fold (t.view env) s w.registry
  steady : w.registry.Steady fold (t.view env)
  parent : SpecParent w.registry n p

/-- The node the shim is called for, with its name in bytes. -/
structure Subject (fold : Str → Str) (t : Tree) (s : Registry) (n : Node) (name : List UInt8) :
    Prop where
  wf : s.vfs.WF fold
  has : s.vfs.Has n
  id_lt : n.id < 2 ^ 32
  exists_ : t.has n.host = true
  encodes : encodeMacRoman (s.vfs.nodeName n) = some name
  short : name.length ≤ 63

section Files

variable {fold : Str → Str} {env : HostEnv} {t : Tree} {s : Registry} {n p : Node}
  {name : List UInt8} {w : Vfs.World}

/-- Reading goes on. -/
theorem Following.step (h : Following fold env t s n p w) {s' : Registry}
    (hr : Reads fold (t.view env) w.registry s') (hs : s'.Steady fold (t.view env)) :
    Following fold env t s n p ⟨t, s'⟩ := ⟨rfl, h.reads.trans hr, hs, h.parent.reads hr⟩

/-- The number of the directory of `n`, which is that of another node if there is one. -/
theorem numbersParent (h : SpecParent s n p) : NumbersParent s n (directoryNumber n p) := by
  unfold directoryNumber
  rcases h.above with ⟨habove, rfl⟩ | habove
  · exact .inl ⟨habove, if_pos rfl⟩
  · obtain ⟨name, hhost⟩ := above_eq_some habove
    have hne : p ≠ n := by
      rintro rfl
      exact List.cons_ne_self name p.host hhost.symm
    exact .inr ⟨p, h.has, habove, if_neg hne⟩

theorem directoryNumber_nonneg (n p : Node) : 0 ≤ directoryNumber n p := by
  unfold directoryNumber
  split
  · decide
  · exact Int.natCast_nonneg p.id

/-- **The FSSpec of the node.** -/
theorem Following.fsspec (h : Following fold env t s n p w) (hn : Subject fold t s n name) :
    wp (onVfs env fun _ => Vfs.fsspec n)
      (fun spec w' => Following fold env t s n p w' ∧
        spec = (volumeRef n.volume, directoryNumber n p, UInt8.ofNat name.length :: name))
      (fun _ _ => False) w := by
  have hhas := h.reads.has hn.has
  have hname : encodeMacRoman (w.registry.vfs.nodeName n) = some name := by
    rw [h.reads.nodeName hn.wf hn.has]
    exact hn.encodes
  have hparent : wp (Vfs.parent n)
      (fun _ s' => Reads fold (t.view env) w.registry s' ∧ s'.Steady fold (t.view env))
      (fun _ _ => False) w.registry :=
    wp_mono (parent_steady h.steady hhas) (fun _ _ hr => hr.1) fun _ _ hfalse => hfalse
  rw [wp_onVfs, h.tree]
  refine wp_mono (fsspec_spec (t.view env) h.steady.wf hhas hparent hname hn.short) ?_
    fun _ _ hfalse => hfalse
  rintro ⟨vref, number, raw⟩ s' ⟨⟨-, hr, hs'⟩, rfl, rfl, hnumber⟩
  refine ⟨h.step hr hs', ?_⟩
  have hsame : number = directoryNumber n p := by
    rcases numbersParent h.parent with ⟨habove, heq⟩ | ⟨q, hq, habove, heq⟩
    · rcases hnumber with ⟨-, hnumber⟩ | ⟨q, -, hsome, -⟩
      · exact hnumber.trans heq.symm
      · rw [habove] at hsome
        cases hsome
    · rcases hnumber with ⟨hnone, -⟩ | ⟨q', hq', hsome, hnumber⟩
      · rw [habove] at hnone
        cases hnone
      · have hhost : q'.host = q.host := Option.some.inj (hsome.symm.trans habove)
        rw [eq_of_host hs'.wf hq' (hr.has hq) hhost] at hnumber
        exact hnumber.trans heq.symm
  rw [hsame]

/-- Work on the tree that leaves it as it is. -/
theorem wp_onTree_kept {α : Type} {x : EStateM Exc Tree α}
    (hkept : wp x (fun _ t' => t' = w.tree) (fun _ _ => True) w.tree) :
    wp (onTree x) (fun a w' => w' = w ∧ okValue (x w.tree) = some a)
      (fun _ _ => okValue (x w.tree) = none) w := by
  rw [wp_onTree]
  refine wp_mono (wp_and hkept (wp_self x w.tree)) ?_ ?_
  · rintro a t' ⟨rfl, hrun⟩
    rw [hrun]
    exact ⟨rfl, rfl⟩
  · rintro e t' ⟨-, hrun⟩
    rw [hrun]
    rfl

theorem readBytes_kept (host : Path) :
    wp (readBytes env host) (fun _ t' => t' = t) (fun _ _ => True) t := by
  simp only [readBytes, refuse, wp_bind, wp_get]
  cases env.deny t (.read host) with
  | some e => exact trivial
  | none =>
    simp only [wp_pure]
    split
    · rfl
    · exact trivial
    · exact trivial

/-- The length of what is found. -/
theorem lengthIf_spec {α β : Type} {cond : Bool} {x : WorldM (List α)} {found : Option (List β)}
    {I : Vfs.World → Prop} (hI : I w)
    (hx : cond = true → wp x (fun a w' => I w' ∧ found.map List.length = some a.length)
      (fun _ _ => found = none) w) :
    wp (lengthIf cond x) (fun len w' => I w' ∧ sizeIf cond found = some len)
      (fun _ _ => sizeIf cond found = none) w := by
  unfold lengthIf sizeIf
  cases cond with
  | false => exact ⟨hI, rfl⟩
  | true =>
    rw [if_pos rfl, if_pos rfl, wp_map]
    refine wp_mono (hx rfl) (fun _ _ h => h) fun _ _ hnone => ?_
    rw [hnone]
    rfl

/-- **The data fork** of a node. -/
theorem dataFork_spec (htree : w.tree = t) :
    wp (dataFork env n) (fun fork w' => w' = w ∧
        (okValue (readBytes env n.host t)).map List.length = some fork.length)
      (fun _ _ => okValue (readBytes env n.host t) = none) w := by
  subst htree
  unfold dataFork
  refine wp_mono (wp_onTree_kept ((wp_mapError _ _).mpr (readBytes_kept n.host))) ?_ ?_
  · rintro fork w' ⟨rfl, hfork⟩
    rw [okValue_mapError] at hfork
    rw [hfork]
    exact ⟨rfl, rfl⟩
  · intro e w' hnone
    rwa [okValue_mapError] at hnone

/-- **The resource fork** of a file. -/
theorem resourceFork_size (htree : w.tree = t) (hfile : IsFile t n.host) :
    wp (resourceFork env n) (fun fork w' => w' = w ∧
        (okValue (loadResourceFork env n.host t)).map List.length = some fork.length)
      (fun _ _ => okValue (loadResourceFork env n.host t) = none) w := by
  subst htree
  have hkept := wp_mono (@loadResourceFork_spec env w.tree n.host hfile) (fun _ _ h => h.1)
    fun _ _ _ => trivial
  refine wp_mono (wp_onTree_kept hkept) ?_ fun _ _ h => h
  rintro fork w' ⟨rfl, hfork⟩
  rw [hfork]
  exact ⟨rfl, rfl⟩

/-- **The Finder info** of a node. -/
theorem finderInfo_size (htree : w.tree = t) :
    wp (finderInfo env n) (fun info w' => w' = w ∧ info.length = 32 ∧
        okValue (loadFinderInfo env n.host t) ≠ none)
      (fun _ _ => okValue (loadFinderInfo env n.host t) = none) w := by
  subst htree
  have hkept := wp_mono (@loadFinderInfo_spec env w.tree n.host) (fun _ _ h => h.1)
    fun _ _ _ => trivial
  have hpadded : wp (finderInfo env n) (fun info _ => info.length = 32) (fun _ _ => True) w := by
    unfold finderInfo
    rw [wp_onTree]
    exact loadFinderInfo_length
  refine wp_mono (wp_and (wp_onTree_kept hkept) hpadded) ?_ fun _ _ h => h.1
  rintro info w' ⟨⟨rfl, hinfo⟩, hlen⟩
  rw [hinfo]
  exact ⟨rfl, hlen, Option.some_ne_none info⟩

/-- **The listing** of a node. -/
theorem Following.children (h : Following fold env t s n p w) (hn : Subject fold t s n name) :
    wp (onVfs env (Vfs.children fold · n))
      (fun r w' => Following fold env t s n p w' ∧
        (hostEntries fold (t.view env) n.host).map List.length = some r.length)
      (fun _ _ => hostEntries fold (t.view env) n.host = none) w := by
  rw [wp_onVfs, h.tree]
  refine wp_mono (children_entries h.steady (h.reads.has hn.has)) ?_ fun _ _ h => h.2
  rintro r s' ⟨⟨hr, hs'⟩, hentries⟩
  refine ⟨h.step hr hs', ?_⟩
  rw [hentries, Option.map_some, List.length_map]

/-- A size that is known. -/
theorem exists_size_iff {size : Option Nat} {len bound : Nat} (h : size = some len) :
    (∃ len', size = some len' ∧ len' < bound) ↔ len < bound := by
  rw [h]
  constructor
  · rintro ⟨_, ⟨⟩, hlt⟩
    exact hlt
  · exact fun hlt => ⟨len, rfl, hlt⟩

/-- **The values of the catalog information.** -/
theorem Following.catalogValues (h : Following fold env t s n p w) (hn : Subject fold t s n name) :
    wp (Carbon.catalogValues fold env n)
      (fun values w' => Following fold env t s n p w' ∧
        ∃ isDir info dataLen rsrcLen valence, info.length = 32 ∧
          values = catalogItems isDir (volumeRef n.volume) (directoryNumber n p) n.id info dataLen
            rsrcLen valence ∧
          (Catalogued fold env t n ↔ dataLen < 2 ^ 64 ∧ rsrcLen < 2 ^ 64 ∧ valence < 2 ^ 32))
      (fun _ _ => ¬ Catalogued fold env t n) w := by
  have hmissing : ∀ {size : Option Nat} {bound : Nat}, size = none →
      ¬ ∃ len, size = some len ∧ len < bound := by
    rintro _ _ rfl ⟨len, hsome, -⟩
    cases hsome
  unfold Carbon.catalogValues
  rw [wp_bind]
  refine wp_mono (h.fsspec hn) ?_ fun _ _ hfalse => hfalse.elim
  rintro spec w₁ ⟨h₁, rfl⟩
  rw [wp_bind, wp_get]
  dsimp only
  rw [h₁.tree, wp_bind]
  refine wp_mono (lengthIf_spec (I := (· = w₁)) rfl fun _ => dataFork_spec h₁.tree) ?_
    fun _ _ hnone hall => hmissing hnone hall.data
  rintro dataLen w₂ ⟨rfl, hdata⟩
  rw [wp_bind]
  refine wp_mono (lengthIf_spec (I := (· = w₂)) rfl fun hfile =>
    resourceFork_size h₁.tree ⟨hn.exists_, ?_⟩) ?_
    fun _ _ hnone hall => hmissing hnone hall.resource
  · simpa using hfile
  rintro rsrcLen w₃ ⟨rfl, hresource⟩
  rw [wp_bind]
  refine wp_mono (finderInfo_size h₁.tree) ?_ fun _ _ hnone hall => hall.info hnone
  rintro info w₄ ⟨rfl, hlen, hinfo⟩
  rw [wp_bind]
  refine wp_mono (lengthIf_spec h₁ fun _ => h₁.children hn) ?_
    fun _ _ hnone hall => hmissing hnone hall.valence
  rintro valence w₅ ⟨h₅, hvalence⟩
  refine ⟨h₅, t.isDir n.host, info, dataLen, rsrcLen, valence, hlen, rfl, ?_⟩
  rw [← exists_size_iff hdata, ← exists_size_iff hresource, ← exists_size_iff hvalence]
  exact ⟨fun hall => ⟨hall.data, hall.resource, hall.valence⟩,
    fun ⟨hdata, hresource, hvalence⟩ => ⟨hdata, hresource, hinfo, hvalence⟩⟩

end Files

/-! ## The shim -/

section Shim

variable {M : ByteMemory} {py : Numerals} {fold : Str → Str} {env : HostEnv} {t : Tree}
  {s : Registry} {n p : Node} {name : List UInt8} {g : Guest M} {st : FileManager M}
  {catalogPtr namePtr specPtr parentPtr : Nat}

theorem wp_inMemory {α : Type} {x : EStateM Exc (Guest M) α} {Q : α → FileManager M → Prop}
    {E : Exc → FileManager M → Prop} : wp (inMemory x) Q E st ↔
      wp x (fun a g' => Q a ⟨g', st.world⟩) (fun e g' => E e ⟨g', st.world⟩) st.guest := wp_zoom

theorem wp_onDisk {α : Type} {x : WorldM α} {Q : α → FileManager M → Prop}
    {E : Exc → FileManager M → Prop} : wp (onDisk x) Q E st ↔
      wp x (fun a w => Q a ⟨st.guest, w⟩) (fun e w => E e ⟨st.guest, w⟩) st.world := wp_zoom

/-- The buffers of the caller: those that are asked for are mapped, and the one of the directory
does not overlap the FSSpec. -/
structure Buffers (g : Guest M) (catalogPtr namePtr specPtr parentPtr : Nat) : Prop where
  catalog : catalogPtr ≠ 0 →
    ByteMemory.MappedRange g.uc (catalogPtr % 2 ^ 32) fsCatalogInfo.size
  name : namePtr ≠ 0 → ByteMemory.MappedRange g.uc (namePtr % 2 ^ 32) hfsUniStr255.size
  spec : ByteMemory.MappedRange g.uc (specPtr % 2 ^ 32) fsSpec.size
  parent : parentPtr ≠ 0 → ByteMemory.MappedRange g.uc (parentPtr % 2 ^ 32) 80
  apart : parentPtr ≠ 0 →
    ∀ x, Has (specPtr % 2 ^ 32, fsSpec.size) x → ¬ Has (parentPtr % 2 ^ 32, 80) x

/-- The state of the shim, called with the guest `g`. -/
structure Running (fold : Str → Str) (env : HostEnv) (t : Tree) (s : Registry) (n p : Node)
    (g : Guest M) (st : FileManager M) : Prop where
  files : Following fold env t s n p st.world
  mapped : ∀ x, M.mapped st.guest.uc x ↔ M.mapped g.uc x

theorem Running.mappedRange (h : Running fold env t s n p g st) {a k : Nat}
    (hmapped : ByteMemory.MappedRange g.uc a k) : ByteMemory.MappedRange st.guest.uc a k :=
  fun x h1 h2 => (h.mapped x).mpr (hmapped x h1 h2)

/-- A write goes on from there. -/
theorem Running.written (h : Running fold env t s n p g st) {g' : Guest M} {a : Nat}
    {raw : List UInt8} (hw : Guest.Written st.guest g' a raw) {w : Vfs.World}
    (hf : Following fold env t s n p w) : Running fold env t s n p g ⟨g', w⟩ :=
  ⟨hf, fun x => (hw.mapped x).trans (h.mapped x)⟩

theorem volumeRef_range (volume : Volume) :
    -2 ^ 15 ≤ volumeRef volume ∧ volumeRef volume < 2 ^ 15 := by
  cases volume <;> decide

/-- **The catalog information** is written if the host gives it and the directory is numbered. -/
theorem writeCatalog_spec (hpy : py.OnAscii) (hn : Subject fold t s n name)
    (hbuffers : Buffers g catalogPtr namePtr specPtr parentPtr)
    (h : Running fold env t s n p g st) :
    wp (writeCatalog py fold env n catalogPtr)
      (fun _ st' => Running fold env t s n p g st' ∧ (catalogPtr ≠ 0 → Catalogued fold env t n))
      (fun _ _ => ¬ ((catalogPtr ≠ 0 → Catalogued fold env t n) ∧ directoryNumber n p < 2 ^ 31))
      st := by
  unfold writeCatalog
  by_cases hptr : catalogPtr ≠ 0
  · rw [if_pos hptr, wp_bind, wp_onDisk]
    refine wp_mono (h.files.catalogValues hn) ?_ fun _ _ hnot hall => hnot (hall.1 hptr)
    rintro values w₁ ⟨h₁, isDir, info, dataLen, rsrcLen, valence, hinfo, rfl, hsizes⟩
    have hcanonical := @catalogItems_canonical_iff isDir _ (directoryNumber n p) n.id dataLen
      rsrcLen valence info hinfo (volumeRef_range n.volume)
    have hmapped := h.mappedRange (hbuffers.catalog hptr)
    rw [wp_inMemory]
    refine wp_mono ((fsCatalogInfo_built hpy).pack_exact (fun key hkey =>
      (catalogItems_keys key hkey).1) catalogItems_takes (fun key hkey =>
      (catalogItems_keys key hkey).2) hmapped) ?_ ?_
    · rintro _ g' ⟨hvalues, raw, hpacked⟩
      exact ⟨h.written hpacked.written h₁, fun _ => hsizes.mpr (hcanonical.mp hvalues).2.2⟩
    · rintro e g' hnot ⟨hall, hnumber⟩
      have hparent : directoryNumber n p < 2 ^ 32 := by omega
      exact hnot (hcanonical.mpr
        ⟨⟨directoryNumber_nonneg n p, hparent⟩, hn.id_lt, hsizes.mp (hall hptr)⟩)
  · rw [if_neg hptr]
    exact ⟨h, fun hne => absurd hne hptr⟩

theorem uniStrItems_names (units : List Nat) :
    ∀ key ∈ (uniStrItems units).map Prod.fst, key ∉ packParameters := by
  have hkeys : (uniStrItems units).map Prod.fst = ["length".toList, "unicode".toList] := rfl
  rw [hkeys]
  decide

/-- **The name** is written. -/
theorem writeName_spec (hpy : py.OnAscii) (hn : Subject fold t s n name)
    (hbuffers : Buffers g catalogPtr namePtr specPtr parentPtr)
    (h : Running fold env t s n p g st) :
    wp (writeName py n namePtr) (fun _ st' => Running fold env t s n p g st')
      (fun _ _ => False) st := by
  unfold writeName
  by_cases hptr : namePtr ≠ 0
  · have htext : encodeMacRoman (st.world.registry.vfs.nodeName n) = some name := by
      rw [h.files.reads.nodeName hn.wf hn.has]
      exact hn.encodes
    have hshort : (nameUnits (st.world.registry.vfs.nodeName n)).length ≤ 255 := by
      rw [nameUnits_eq]
      have hunits := textUnits_length (st.world.registry.vfs.nodeName n)
      have hlen := encodeMacRoman_length htext
      have hname := hn.short
      omega
    have hunits : ∀ u ∈ nameUnits (st.world.registry.vfs.nodeName n), u < 2 ^ 16 := by
      rw [nameUnits_eq]
      exact textUnits_lt _
    obtain ⟨g', raw, hpack, hpacked⟩ := (hfsUniStr255_built hpy).pack_packed
      (uniStrItems_canonical hunits hshort) (uniStrItems_names _)
      (h.mappedRange (hbuffers.name hptr))
    rw [if_pos hptr, wp_bind, wp_get]
    dsimp only
    rw [if_neg (Nat.not_lt.mpr hshort), wp_inMemory, wp_iff_of_ok hpack]
    exact h.written hpacked.written h.files
  · rw [if_neg hptr]
    exact h

theorem fsSpecItems_names (vref number : Int) (raw : List UInt8) :
    ∀ key ∈ (fsSpecItems vref number raw).map Prod.fst,
      key ∈ fsSpec.layout.map LayoutEntry.field ∧ key ∉ packParameters := by
  have hkeys : (fsSpecItems vref number raw).map Prod.fst =
      fsSpec.layout.map LayoutEntry.field := rfl
  rw [hkeys]
  decide

/-- The FSSpec of the node. -/
def nodeSpecItems (n p : Node) (name : List UInt8) : List (Str × Value) :=
  fsSpecItems (volumeRef n.volume) (directoryNumber n p) (UInt8.ofNat name.length :: name)

/-- **The FSSpec** is written exactly if the name has 63 bytes and the directory is numbered. -/
theorem writeFsspec_spec (hpy : py.OnAscii) (hn : Subject fold t s n name) (hptr : specPtr ≠ 0)
    (hbuffers : Buffers g catalogPtr namePtr specPtr parentPtr)
    (h : Running fold env t s n p g st) :
    wp (writeFsspec py env n specPtr)
      (fun _ st' => Running fold env t s n p g st' ∧
        (name.length = 63 ∧ directoryNumber n p < 2 ^ 31) ∧
        ∃ g' raw, fsSpec.Packed g' st'.guest specPtr (nodeSpecItems n p name) raw)
      (fun _ _ => ¬ (name.length = 63 ∧ directoryNumber n p < 2 ^ 31)) st := by
  have hcanonical : fsSpec.Canonical (nodeSpecItems n p name) ↔
      name.length = 63 ∧ directoryNumber n p < 2 ^ 31 := by
    have hnonneg := directoryNumber_nonneg n p
    rw [nodeSpecItems, fsSpecItems_canonical_iff, List.length_cons]
    constructor
    · rintro ⟨-, ⟨-, hnumber⟩, hlen⟩
      exact ⟨Nat.succ.inj hlen, hnumber⟩
    · rintro ⟨hlen, hnumber⟩
      exact ⟨volumeRef_range n.volume, ⟨by omega, hnumber⟩, congrArg (· + 1) hlen⟩
  have hkeys := fsSpecItems_names (volumeRef n.volume) (directoryNumber n p)
    (UInt8.ofNat name.length :: name)
  unfold writeFsspec
  rw [if_pos hptr, wp_bind, wp_onDisk]
  refine wp_mono (h.files.fsspec hn) ?_ fun _ _ hfalse => hfalse.elim
  rintro spec w₁ ⟨h₁, rfl⟩
  rw [← hcanonical, wp_inMemory]
  refine wp_mono ((fsSpec_built hpy).pack_exact (fun key hkey => (hkeys key hkey).1) rfl
    (fun key hkey => (hkeys key hkey).2) (h.mappedRange hbuffers.spec)) ?_ fun _ _ hnot => hnot
  rintro _ g' ⟨hvalues, raw, hpacked⟩
  exact ⟨h.written hpacked.written h₁, hvalues, st.guest, raw, hpacked⟩

/-- **The FSRef of the directory** is written next to the FSSpec, if the directory is numbered. -/
theorem writeParent_spec (hn : Subject fold t s n name)
    (hbuffers : Buffers g catalogPtr namePtr specPtr parentPtr)
    (h : Running fold env t s n p g st) :
    wp (writeParent p parentPtr)
      (fun _ st' => Running fold env t s n p g st' ∧
        ∀ x, Has (specPtr % 2 ^ 32, fsSpec.size) x → st'.guest.byte x = st.guest.byte x)
      (fun _ _ => ¬ directoryNumber n p < 2 ^ 31) st := by
  unfold writeParent
  by_cases hptr : parentPtr ≠ 0
  · rw [if_pos hptr, wp_bind]
    refine wp_ofExcept (fun data hdata => ?_) fun e he hnumber => ?_
    · have hlen : data.length = 80 := by
        unfold encodeFsref at hdata
        split at hdata
        · cases hdata
        · rw [← Except.ok.inj hdata, List.length_append, toBE_length, List.length_replicate]
      have hmapped := h.mappedRange (hbuffers.parent hptr)
      rw [← hlen] at hmapped
      rw [wp_inMemory]
      refine wp_mono (Guest.write_written hmapped) ?_ fun _ _ hfalse => hfalse.elim
      intro _ g' hwritten
      refine ⟨h.written hwritten h.files, fun x hx => hwritten.frame x ?_⟩
      rw [hlen]
      exact hbuffers.apart hptr x hx
    · have hid : p.id < 2 ^ 32 := by
        unfold directoryNumber at hnumber
        split at hnumber
        · rename_i heq
          exact heq ▸ hn.id_lt
        · omega
      rw [encodeFsref_eq hid] at he
      cases he
  · rw [if_neg hptr]
    exact ⟨h, fun _ _ => rfl⟩

/-- What the shim needs in order to return. -/
structure Describable (fold : Str → Str) (env : HostEnv) (t : Tree) (n p : Node)
    (name : List UInt8) (catalogPtr : Nat) : Prop where
  full : name.length = 63
  number : directoryNumber n p < 2 ^ 31
  catalog : catalogPtr ≠ 0 → Catalogued fold env t n

/-- **The shim returns** exactly when it can describe the node, and the FSSpec is then in memory. -/
theorem fsGetCatalogInfo_spec (hpy : py.OnAscii) (hn : Subject fold t s n name)
    (hptr : specPtr ≠ 0) (hbuffers : Buffers g catalogPtr namePtr specPtr parentPtr)
    {refPtr : Nat} {data : List UInt8} (hread : Guest.read refPtr 80 g = .ok data g)
    (hdecode : decodeFsref s.nodeById data = .ok n) {s₁ : Registry}
    (hparent : specParent n s = .ok p s₁) (hstart : Following fold env t s n p ⟨t, s₁⟩) :
    wp (fsGetCatalogInfo py fold env refPtr catalogPtr namePtr specPtr parentPtr)
      (fun returned st => (returned = setErr 0 ∧ Following fold env t s n p st.world) ∧
        Describable fold env t n p name catalogPtr ∧
        fsSpec.unpack specPtr st.guest = .ok (nodeSpecItems n p name) st.guest)
      (fun _ _ => ¬ Describable fold env t n p name catalogPtr)
      (⟨g, ⟨t, s⟩⟩ : FileManager M) := by
  have hstate : Running fold env t s n p g (⟨g, ⟨t, s₁⟩⟩ : FileManager M) :=
    ⟨hstart, fun _ => Iff.rfl⟩
  unfold fsGetCatalogInfo
  rw [wp_bind, wp_inMemory, wp_iff_of_ok hread, wp_bind, wp_get]
  dsimp only
  rw [wp_bind]
  refine wp_ofExcept (fun node hnode => ?_) fun e he => ?_
  · rw [hdecode] at hnode
    obtain rfl := Except.ok.inj hnode
    rw [wp_bind, wp_onDisk, wp_onVfs, wp_iff_of_ok hparent, wp_bind]
    refine wp_mono (writeCatalog_spec hpy hn hbuffers hstate) ?_
      fun _ _ hnot hall => hnot ⟨hall.catalog, hall.number⟩
    rintro _ st₁ ⟨h₁, hcatalog⟩
    rw [wp_bind]
    refine wp_mono (writeName_spec hpy hn hbuffers h₁) ?_ fun _ _ hfalse => hfalse.elim
    intro _ st₂ h₂
    rw [wp_bind]
    refine wp_mono (writeFsspec_spec hpy hn hptr hbuffers h₂) ?_
      fun _ _ hnot hall => hnot ⟨hall.full, hall.number⟩
    rintro _ st₃ ⟨h₃, ⟨hfull, hnumber⟩, g', raw, hpacked⟩
    rw [wp_bind]
    refine wp_mono (writeParent_spec hn hbuffers h₃) ?_ fun _ _ hnot hall => hnot hall.number
    rintro _ st₄ ⟨h₄, hkept⟩
    refine ⟨⟨rfl, h₄.files⟩, ⟨hfull, hnumber, hcatalog⟩, ?_⟩
    exact hpacked.unpack (h₄.mappedRange hbuffers.spec) hkept
  · rw [hdecode] at he
    cases he

/-- **The FSSpec leads back** to the node if its directory can be listed. -/
theorem catalogFsspec_exact (hpy : py.OnAscii) (hfold : CaseFolding fold)
    (hrule : NamingRule fold t) (hn : Subject fold t s n name)
    (hbuild : ∃ r, s.vfs.Has r ∧ r.host = s.vfs.buildRoot ∧ r.id = 2) (hptr : specPtr ≠ 0)
    (hbuffers : Buffers g catalogPtr namePtr specPtr parentPtr) {refPtr : Nat} {data : List UInt8}
    (hread : Guest.read refPtr 80 g = .ok data g)
    (hdecode : decodeFsref s.nodeById data = .ok n) {s₁ : Registry}
    (hparent : specParent n s = .ok p s₁) (hstart : Following fold env t s n p ⟨t, s₁⟩) :
    wp (catalogFsspec py fold env refPtr catalogPtr namePtr specPtr parentPtr)
      (fun found _ => (Describable fold env t n p name catalogPtr ∧
        ParentListed fold (t.view env) s.vfs n) ∧ found.1 = setErr 0 ∧ found.2 = n)
      (fun _ _ => ¬ (Describable fold env t n p name catalogPtr ∧
        ParentListed fold (t.view env) s.vfs n)) (⟨g, ⟨t, s⟩⟩ : FileManager M) := by
  unfold catalogFsspec
  rw [wp_bind]
  refine wp_mono (fsGetCatalogInfo_spec hpy hn hptr hbuffers hread hdecode hparent hstart) ?_
    fun _ _ hnot hall => hnot hall.1
  rintro returned st ⟨⟨rfl, h⟩, hdescribable, hunpack⟩
  have hfull := hdescribable.full
  have hpascal : (UInt8.ofNat name.length :: name).take
      (((UInt8.ofNat name.length :: name).headD 0).toNat + 1) =
        UInt8.ofNat name.length :: name := by
    have hhead : ((UInt8.ofNat name.length :: name).headD 0).toNat = name.length := by
      rw [List.headD_cons, hfull]
      rfl
    rw [hhead, ← List.length_cons, List.take_length]
  have hhas := h.reads.has hn.has
  have hencodes : encodeMacRoman (st.world.registry.vfs.nodeName n) = some name := by
    rw [h.reads.nodeName hn.wf hn.has]
    exact hn.encodes
  have hbuild' : ∃ r, st.world.registry.vfs.Has r ∧
      r.host = st.world.registry.vfs.buildRoot ∧ r.id = 2 := by
    obtain ⟨r, hr, hhost, hid⟩ := hbuild
    exact ⟨r, h.reads.has hr, hhost.trans h.reads.buildRoot.symm, hid⟩
  have hlisted : ParentListed fold (t.view env) st.world.registry.vfs n ↔
      ParentListed fold (t.view env) s.vfs n := by
    unfold ParentListed
    rw [h.reads.above]
  have hfound := nodeFromFsspec_entry hfold hrule h.steady hbuild' hhas hn.exists_ hencodes hn.short
    (numbersParent h.parent)
  rw [wp_bind, wp_inMemory, wp_iff_of_ok hunpack]
  show wp (do
    let found ← onDisk (onVfs env fun view => nodeFromFsspec fold view (volumeRef n.volume)
      (directoryNumber n p) (.bytes ((UInt8.ofNat name.length :: name).take
        (((UInt8.ofNat name.length :: name).headD 0).toNat + 1))))
    pure (setErr 0, found)) _ _ _
  rw [hpascal, wp_bind, wp_onDisk, wp_onVfs]
  dsimp only
  rw [h.tree]
  refine wp_mono hfound ?_ ?_
  · rintro m s' ⟨rfl, hm⟩
    exact ⟨⟨hdescribable, hlisted.mp hm⟩, rfl, rfl⟩
  · intro e s' hnot hall
    exact hnot (hlisted.mpr hall.2)

/-- The FSSpec of a node of the VFS: the directory and the condition, spelled out. -/
theorem catalogFsspec_reached (hpy : py.OnAscii) (hfold : CaseFolding fold)
    (hrule : NamingRule fold t) {nodeById : Dict Nat Node} {ident : Nat} {buildRoot : Path}
    (hreached : Reached fold (t.view env) nodeById ident buildRoot s) (hn : s.vfs.Has n)
    (hexists : t.has n.host = true) (hname : encodeMacRoman (s.vfs.nodeName n) = some name)
    (hlen : name.length ≤ 63) {refPtr : Nat} {data : List UInt8} (hdata : encodeFsref n = .ok data)
    (hread : Guest.read refPtr 80 g = .ok data g) (hptr : specPtr ≠ 0)
    (hbuffers : Buffers g catalogPtr namePtr specPtr parentPtr) :
    ∃ p s₁, specParent n s = .ok p s₁ ∧
      (wp (catalogFsspec py fold env refPtr catalogPtr namePtr specPtr parentPtr)
          (fun found _ => found.1 = setErr 0 ∧ found.2 = n) (fun _ _ => False)
          (⟨g, ⟨t, s⟩⟩ : FileManager M) ↔
        Describable fold env t n p name catalogPtr ∧ ParentListed fold (t.view env) s.vfs n) := by
  have hs := hreached.steady
  have hknown : Known s := Reached.known hreached
  have hid : n.id < 2 ^ 32 := by
    unfold encodeFsref at hdata
    split at hdata
    · cases hdata
    · omega
  have hdecode : decodeFsref s.nodeById data = .ok n := by
    rw [encodeFsref_eq hid] at hdata
    rw [← Except.ok.inj hdata, decodeFsref_encoded hid, hknown hn]
  obtain ⟨p, s₁, hparent, ⟨hr, hs₁, -⟩, hp⟩ := wp_exists_ok (specParent_spec hs hknown hn)
  refine ⟨p, s₁, hparent, wp_iff_of_exact (catalogFsspec_exact hpy hfold hrule
    ⟨hs.wf, hn, hid, hexists, hname, hlen⟩ hreached.addressed.buildRoot hptr hbuffers hread hdecode
    hparent ⟨rfl, hr, hs₁, hp⟩)⟩

end Shim

/-- **FSSpecs lead back exactly for names of 63 bytes.** Over a tree that obeys the naming rule, in
every state that reading it with one VFS reaches, for an existing node whose name has at most 63
bytes in MacRoman, with its FSRef and the buffers of the caller in memory: the shim returns 0, and
the FSSpec it has written leads back to the node, if and only if the name has exactly 63 bytes, the
directory of the node has a number below `2 ^ 31` and can be listed, and the host gives what is to
be written of the catalog information. -/
theorem catalogFsspec_iff {M : ByteMemory} {py : Numerals} {fold : Str → Str} {env : HostEnv}
    {t : Tree} {nodeById : Dict Nat Node} {ident : Nat} {buildRoot : Path} {s : Registry}
    (hpy : py.OnAscii) (hfold : CaseFolding fold) (hrule : NamingRule fold t)
    (hreached : Reached fold (t.view env) nodeById ident buildRoot s) {n : Node}
    (hn : s.vfs.Has n) (hexists : t.has n.host = true) {name : List UInt8}
    (hname : encodeMacRoman (s.vfs.nodeName n) = some name) (hlen : name.length ≤ 63)
    {g : Guest M} {refPtr catalogPtr namePtr specPtr parentPtr : Nat} {data : List UInt8}
    (hdata : encodeFsref n = .ok data) (hread : Guest.read refPtr 80 g = .ok data g)
    (hptr : specPtr ≠ 0) (hbuffers : Buffers g catalogPtr namePtr specPtr parentPtr) :
    wp (catalogFsspec py fold env refPtr catalogPtr namePtr specPtr parentPtr)
        (fun found _ => found.1 = setErr 0 ∧ found.2 = n) (fun _ _ => False)
        (⟨g, ⟨t, s⟩⟩ : FileManager M) ↔
      name.length = 63 ∧ (∀ p s', specParent n s = .ok p s' → p ≠ n → p.id < 2 ^ 31) ∧
        ParentListed fold (t.view env) s.vfs n ∧ (catalogPtr ≠ 0 → Catalogued fold env t n) := by
  obtain ⟨p, s₁, hparent, hiff⟩ := catalogFsspec_reached hpy hfold hrule hreached hn hexists hname
    hlen hdata hread hptr hbuffers
  have hnumber : directoryNumber n p < 2 ^ 31 ↔
      ∀ p s', specParent n s = .ok p s' → p ≠ n → p.id < 2 ^ 31 := by
    unfold directoryNumber
    constructor
    · intro h q s' hq hne
      rw [hparent] at hq
      cases hq
      rw [if_neg hne] at h
      omega
    · intro h
      split
      · decide
      · rename_i hne
        exact_mod_cast h p s₁ hparent hne
  rw [hiff, ← hnumber]
  constructor
  · rintro ⟨hdescribable, hlisted⟩
    exact ⟨hdescribable.full, hdescribable.number, hlisted, hdescribable.catalog⟩
  · rintro ⟨hfull, hnumber, hlisted, hcatalog⟩
    exact ⟨⟨hfull, hnumber, hcatalog⟩, hlisted⟩

/-- The flat memory with the FSRef of node 3 at `0x1000`. -/
def refGuest : Guest ByteMemory.flat :=
  ⟨(⟨fun _ => true, fun x => if x = 0x1003 then 3 else 0⟩ : ByteMemory.Flat)⟩

theorem refGuest_read : Guest.read 0x1000 80 refGuest =
    .ok (toBE 4 3 ++ List.replicate 76 0) refGuest := by
  rfl

theorem refGuest_buffers : Buffers refGuest 0x3000 0x4000 0x2000 0x5000 where
  catalog _ _ _ _ := rfl
  name _ _ _ _ := rfl
  spec _ _ _ := rfl
  parent _ _ _ _ := rfl
  apart _ x h₁ h₂ := by
    have hspec : x < 0x2000 + 70 := h₁.2
    have hparent : 0x5000 ≤ x := h₂.1
    omega

/-- A name of 63 characters. -/
def longName : Str := List.replicate 63 'f'

/-- `/p` with an empty file of that name. -/
def longTree : Tree := endState (createFile calm [longName, ['p']] [] (DirTree.bare .empty))

/-- The VFS with the build root `/p`, asked for the file. -/
def longRegistry : Registry := ((Registry.init .empty 0 [['p']]).intern [longName, ['p']]).2

/-- The node of the file. -/
def longNode : Node := ⟨0, [longName, ['p']], .build, 3⟩

theorem longTree_rule : NamingRule id longTree := by
  have hnames : ∀ p ∈ longTree.support, p = [] ∨ (p.headD [] ≠ [] ∧ p.headD [] ≠ ['.'] ∧
      p.headD [] ≠ ['.', '.'] ∧ ':' ∉ p.headD []) := by decide +kernel
  refine ⟨fun name dir h => ?_, fun _ _ _ _ _ h => h⟩
  obtain ⟨e, he⟩ := DirTree.has_iff.mp h
  exact (hnames _ (longTree.look_support he)).resolve_left (List.cons_ne_nil _ _)

/-- What the file with the long name needs. -/
theorem longNode_catalogued : Catalogued id calm longTree longNode where
  data := ⟨0, by decide +kernel, by decide⟩
  resource := ⟨0, by decide +kernel, by decide⟩
  info := by decide +kernel
  valence := ⟨0, by decide +kernel, by decide⟩

/-- The file with the long name is found. -/
theorem catalogFsspec_iff_long :
    wp (catalogFsspec asciiNumerals id calm 0x1000 0x3000 0x4000 0x2000 0x5000)
      (fun found _ => found.1 = setErr 0 ∧ found.2 = longNode) (fun _ _ => False)
      (⟨refGuest, ⟨longTree, longRegistry⟩⟩ : FileManager ByteMemory.flat) := by
  have hreached : Reached id (longTree.view calm) .empty 0 [['p']] longRegistry :=
    .step .init (.node [longName, ['p']]) fun _ h => by cases h
  have hhas : longRegistry.vfs.Has longNode := by
    unfold VFS.Has
    decide +kernel
  have hexists : longTree.has longNode.host = true := by decide +kernel
  have hencodes : encodeMacRoman (longRegistry.vfs.nodeName longNode) =
      some (List.replicate 63 0x66) := by decide +kernel
  have hnumber : (okValue (specParent longNode longRegistry)).map Node.id = some 2 := by
    decide +kernel
  have hparent : ∀ p s', specParent longNode longRegistry = .ok p s' → p ≠ longNode →
      p.id < 2 ^ 31 := by
    intro p s' h _
    rw [h] at hnumber
    have hid : p.id = 2 := Option.some.inj hnumber
    omega
  have hlistable : (longTree.view calm).Listable := fun _ hd => ⟨_, Tree.view_listdir_eq hd rfl⟩
  have hlisted : ParentListed id (longTree.view calm) longRegistry.vfs longNode := by
    intro d _
    obtain ⟨entries, hentries⟩ := @hostEntries_listable id (longTree.view calm) hlistable d
    rw [hentries]
    rfl
  have hiff := catalogFsspec_iff asciiNumerals_onAscii id_caseFolding longTree_rule hreached hhas
    hexists hencodes (by decide) rfl refGuest_read (by decide) refGuest_buffers
  rw [hiff]
  exact ⟨rfl, hparent, hlisted, fun _ => longNode_catalogued⟩

/-- **A name of one byte** already has no FSSpec: the shim is called for the file `f`, and does not
return. -/
theorem catalogFsspec_short : ¬ ∀ (t : Tree) (buildRoot : Path) (s : Registry), NamingRule id t →
    Reached id (t.view calm) .empty 0 buildRoot s → ∀ n, s.vfs.Has n → t.has n.host = true →
    ∀ name, encodeMacRoman (s.vfs.nodeName n) = some name → name.length ≤ 63 →
    ∀ (g : Guest ByteMemory.flat) (refPtr catalogPtr namePtr specPtr parentPtr : Nat) data,
      encodeFsref n = .ok data → Guest.read refPtr 80 g = .ok data g → specPtr ≠ 0 →
      Buffers g catalogPtr namePtr specPtr parentPtr →
      wp (catalogFsspec asciiNumerals id calm refPtr catalogPtr namePtr specPtr parentPtr)
        (fun found _ => found.1 = setErr 0 ∧ found.2 = n) (fun _ _ => False)
        (⟨g, ⟨t, s⟩⟩ : FileManager ByteMemory.flat) := by
  intro h
  have hreached : Reached id (smallTree.view calm) .empty 0 [['d'], ['p']] fileRegistry :=
    .step .init (.node [['f'], ['s'], ['d'], ['p']]) fun _ h => by cases h
  have hhas : fileRegistry.vfs.Has fileNode := rfl
  have hexists : smallTree.has fileNode.host = true := by decide
  have hencodes : encodeMacRoman (fileRegistry.vfs.nodeName fileNode) = some [0x66] := by decide
  have hbuffers : Buffers refGuest 0 0 0x2000 0 :=
    ⟨fun hne => absurd rfl hne, fun hne => absurd rfl hne, fun _ _ _ => rfl,
      fun hne => absurd rfl hne, fun hne => absurd rfl hne⟩
  have hcall := h smallTree [['d'], ['p']] fileRegistry smallTree_rule hreached fileNode hhas
    hexists [0x66] hencodes (by decide) refGuest 0x1000 0 0 0x2000 0 _ rfl refGuest_read (by decide)
    hbuffers
  obtain ⟨p, s₁, -, hiff⟩ := catalogFsspec_reached asciiNumerals_onAscii id_caseFolding
    smallTree_rule hreached hhas hexists hencodes (by decide) rfl refGuest_read (by decide) hbuffers
  rw [hiff] at hcall
  exact absurd hcall.1.full (by decide)

end Cwhost.Carbon
