import Cwhost.Lib.TwoTier
import Cwhost.MacRoman
import Cwhost.Vfs.Mutations

/-!
# Reading the forks back (`vfs.py`, `Node.resource_fork` and `Node.finder_info`)

A write of the resource fork or of the Finder info goes to the native attribute, and to the sidecar
when the host refuses that. A read prefers the native attribute, whatever was written since. So
the fork of a file reads as it was last written except in three cases: a refused write left an
older native value in place; the native store does not answer and the sidecar holds something
older; `set_type_creator` itself has read such an older value and wrote it back.

* `loadResourceFork`, `loadFinderInfo`, `setTypeCreator`: the readers, and the writer that reads.
* `tiers`: what a file and its sidecar hold, as a store in two tiers. `storeResourceFork_wrote`,
  `loadResourceFork_spec` and their fellows: the code's store is that one.
* `ForkCall.Meets`: when a call is read back. `step_iff`: exactly then.
* `forks_lastWritten`: in a run of calls that meet it the forks read as they were last written.

Premises: a file of a `Tree`; each call has a host of its own (`HostEnv`), which may refuse any
system call or answer none of the attribute calls.
-/

namespace Cwhost.Vfs

open Lib

/-! ## Work of the host -/

section Host

variable (env : HostEnv) (host : Path)

/-- `_read_sidecar_entry`. -/
def readSidecarEntry (entryId : Nat) : EStateM Exc Tree (Option (List UInt8)) := do
  if (← get).has (sidecar host) then do
    let ad ← AppleDouble.read env (sidecar host)
    return ad.entries.get? entryId
  else return none

/-- Reading the named fork, where that succeeds. -/
def readNamedfork : OsM (Option (List UInt8)) := do
  if (← get).has (namedfork host) then
    try
      let data ← readBytes env (namedfork host)
      return some data
    catch _ => return none
  else return none

/-- The host's part of `resource_fork`: the native attribute, else the named fork, else the
sidecar. -/
def loadResourceFork : EStateM Exc Tree (List UInt8) := do
  match ← mapError (fun e => .osError e.text) (osGetxattr env host .resourceFork) with
  | some native => return native
  | none =>
    match ← mapError (fun e => .osError e.text) (readNamedfork env host) with
    | some data => return data
    | none =>
      let entry ← readSidecarEntry env host 2
      return entry.getD []

/-- `(raw + b"\0" * 32)[:32]`. -/
def padFinderInfo (raw : List UInt8) : List UInt8 := (raw ++ List.replicate 32 0).take 32

/-- The host's part of `finder_info`: the native attribute, else the sidecar. -/
def loadFinderInfo : EStateM Exc Tree (List UInt8) := do
  match ← mapError (fun e => .osError e.text) (osGetxattr env host .finderInfo) with
  | some native => return padFinderInfo native
  | none =>
    let entry ← readSidecarEntry env host 9
    return padFinderInfo (entry.getD [])

end Host

/-! ## The methods -/

/-- A type or creator argument. -/
inductive Signature
  | bytes (raw : List UInt8)
  | str (text : Str)

/-- Its bytes; a text is encoded. -/
def Signature.raw : Signature → Except Exc (List UInt8)
  | .bytes raw => pure raw
  | .str text =>
    match encodeMacRoman text with
    | some raw => pure raw
    | none => throw .valueError

/-- `info[:4] = file_type; info[4:8] = creator`. -/
def retype (fileType creator info : List UInt8) : List UInt8 :=
  assign (assign info 0 4 fileType) 4 8 creator

section Methods

variable (env : HostEnv) (n : Node)

/-- `Node.resource_fork`. -/
def resourceFork : WorldM (List UInt8) := onTree (loadResourceFork env n.host)

/-- `Node.finder_info`. -/
def finderInfo : WorldM (List UInt8) := onTree (loadFinderInfo env n.host)

/-- `Node.set_type_creator`. -/
def setTypeCreator (fileType creator : Signature) : WorldM Unit := do
  let fileType ← MonadExcept.ofExcept fileType.raw
  let creator ← MonadExcept.ofExcept creator.raw
  if fileType.length ≠ 4 ∨ creator.length ≠ 4 then
    throw (.hostError "FinderInfo type and creator must be four bytes each")
  else do
    let info ← finderInfo env n
    setFinderInfo env n (retype fileType creator info)

end Methods

/-- A call that writes a fork or the Finder info. -/
inductive ForkCall
  | writeResourceFork (data : List UInt8)
  | setFinderInfo (data : List UInt8)
  | setTypeCreator (fileType creator : Signature)

/-- The call on a node. -/
def ForkCall.run (env : HostEnv) (n : Node) : ForkCall → WorldM Unit
  | .writeResourceFork data => Vfs.writeResourceFork env n data
  | .setFinderInfo data => Vfs.setFinderInfo env n data
  | .setTypeCreator fileType creator => Vfs.setTypeCreator env n fileType creator

/-! ## A file and its sidecar as a store in two tiers -/

/-- What a reader makes of the bytes of an attribute. -/
def XattrName.reading : XattrName → List UInt8 → List UInt8
  | .resourceFork, raw => raw
  | .finderInfo, raw => padFinderInfo raw

/-- The sidecar entry that stands for the attribute. -/
def XattrName.entryId : XattrName → Nat
  | .resourceFork => 2
  | .finderInfo => 9

/-- The entries of the sidecar; none when it cannot be parsed. -/
def sidecarEntries (t : Tree) (host : Path) : Option (Dict Nat (List UInt8)) :=
  if t.has (sidecar host) then (AppleDouble.held t (sidecar host)).map AppleDouble.entries
  else some .empty

/-- The native attributes in front, the sidecar behind them. -/
def tiers (t : Tree) (host : Path) : Tiers XattrName (List UInt8) where
  front name := (t.xattr host name).map name.reading
  back name := (sidecarEntries t host).map fun entries =>
    name.reading ((entries.get? name.entryId).getD [])

/-- The native write is accepted. -/
def accepts (env : HostEnv) (t : Tree) (host : Path) (name : XattrName) (value : List UInt8) :
    Bool := decide (t.has host = true ∧ env.deny t (.setxattr host name value) = none)

/-- The native read is answered. -/
def answers (env : HostEnv) (t : Tree) (host : Path) (name : XattrName) : Bool :=
  decide (env.deny t (.getxattr host name) = none)

/-- There is a file. -/
structure IsFile (t : Tree) (host : Path) : Prop where
  has : t.has host = true
  not_dir : t.isDir host = false

/-- The sidecar is there to fall back on: reading it is not refused, and a write to it that has
begun is not broken off. -/
structure Fallback (env : HostEnv) (host : Path) : Prop where
  read : ∀ t, env.deny t (.read (sidecar host)) = none
  write : ∀ t data, env.deny t (.write (sidecar host) data) = none

/-- A write of the attribute `name`, native or to the sidecar. -/
structure Wrote (t t' : Tree) (host : Path) (native : Bool) (name : XattrName)
    (value : List UInt8) : Prop where
  file : IsFile t' host
  tiers : tiers t' host = (Vfs.tiers t host).write native name (name.reading value)

section Refines

variable {env : HostEnv} {t : Tree} {host : Path}

theorem padFinderInfo_of_length {raw : List UInt8} (h : raw.length = 32) :
    padFinderInfo raw = raw := by
  rw [padFinderInfo, ← h, List.take_left]

theorem padFinderInfo_length (raw : List UInt8) : (padFinderInfo raw).length = 32 := by
  simp [padFinderInfo]

theorem entryId_injective : Function.Injective XattrName.entryId := by
  intro a b h
  cases a <;> cases b <;> first | rfl | cases h

theorem IsFile.ne_root (h : IsFile t host) : host ≠ [] := by
  rintro rfl
  obtain ⟨e, he, hd⟩ := t.look_root
  have := DirTree.isDir_iff.mpr ⟨e, he, hd⟩
  rw [h.not_dir] at this
  cases this

theorem IsFile.has_parent (h : IsFile t host) : t.has host.tail = true := by
  obtain ⟨n, d, rfl⟩ := List.exists_cons_of_ne_nil h.ne_root
  exact DirTree.has_of_isDir (DirTree.isDir_of_has h.has)

theorem isFile_congr {t' : Tree} (h : IsFile t host) (hlook : t'.look host = t.look host) :
    IsFile t' host := by
  refine ⟨?_, ?_⟩
  · rw [DirTree.has, hlook]
    exact h.has
  · rw [DirTree.isDir, hlook]
    exact h.not_dir

theorem host_ne_sidecar (h : IsFile t host) : host ≠ sidecar host := by
  obtain ⟨n, d, rfl⟩ := List.exists_cons_of_ne_nil h.ne_root
  intro heq
  have hn : n = '.' :: '_' :: n := (List.cons.inj heq).1
  have hlen := congrArg List.length hn
  rw [List.length_cons, List.length_cons] at hlen
  omega

/-! ### Reads -/

theorem osGetxattr_spec (name : XattrName) :
    wp (osGetxattr env host name)
      (fun native t' => t' = t ∧ native.map name.reading =
        if answers env t host name then (tiers t host).front name else none)
      (fun _ _ => False) t := by
  simp only [osGetxattr, wp_bind, wp_get, answers, decide_eq_true_eq]
  split
  · exact ⟨rfl, rfl⟩
  · exact ⟨rfl, rfl⟩

theorem readSidecarEntry_spec (name : XattrName) :
    wp (readSidecarEntry env host name.entryId)
      (fun entry t' => t' = t ∧ (tiers t host).back name = some (name.reading (entry.getD [])))
      (fun _ t' => t' = t ∧ (env.deny t (.read (sidecar host)) = none →
        (tiers t host).back name = none)) t := by
  simp only [readSidecarEntry, wp_bind, wp_get]
  split
  · rename_i hhas
    rw [wp_bind]
    refine wp_mono (AppleDouble.read_held _) (fun ad t' h => ?_) fun e t' h => ?_
    · obtain ⟨rfl, h⟩ := h
      exact ⟨rfl, by simp [tiers, sidecarEntries, hhas, h]⟩
    · obtain ⟨rfl, h⟩ := h
      exact ⟨rfl, fun hdeny => by simp [tiers, sidecarEntries, hhas, h hdeny]⟩
  · rename_i hhas
    exact ⟨rfl, by simp [tiers, sidecarEntries, hhas]⟩

theorem readNamedfork_file (h : IsFile t host) :
    wp (readNamedfork env host) (fun data t' => t' = t ∧ data = none) (fun _ _ => False) t := by
  have hnone : t.has (namedfork host) = false := by
    refine Bool.eq_false_iff.mpr fun hhas => ?_
    have hd := DirTree.isDir_of_has (DirTree.has_of_isDir (DirTree.isDir_of_has hhas))
    rw [h.not_dir] at hd
    cases hd
  simp only [readNamedfork, wp_bind, wp_get, hnone, Bool.false_eq_true, if_false, wp_pure,
    and_self]

/-- **`resource_fork`** reads the two tiers. -/
theorem loadResourceFork_spec (h : IsFile t host) :
    wp (loadResourceFork env host)
      (fun data t' => t' = t ∧
        (tiers t host).read (answers env t host .resourceFork) .resourceFork = some data)
      (fun _ t' => t' = t ∧ (env.deny t (.read (sidecar host)) = none →
        (tiers t host).read (answers env t host .resourceFork) .resourceFork = none)) t := by
  simp only [loadResourceFork, wp_bind, wp_mapError]
  refine wp_mono (osGetxattr_spec .resourceFork) (fun native t' hn => ?_) fun _ _ h => h.elim
  obtain ⟨rfl, hn⟩ := hn
  cases native with
  | some native => exact ⟨rfl, by rw [Tiers.read, ← hn]; rfl⟩
  | none =>
    simp only [wp_bind, wp_mapError]
    refine wp_mono (readNamedfork_file h) (fun data t' hd => ?_) fun _ _ h => h.elim
    obtain ⟨rfl, rfl⟩ := hd
    simp only [wp_bind, wp_pure, Tiers.read, ← hn, Option.map_none, Option.none_or]
    exact readSidecarEntry_spec .resourceFork

/-- **`finder_info`** reads the two tiers. -/
theorem loadFinderInfo_spec :
    wp (loadFinderInfo env host)
      (fun info t' => t' = t ∧
        (tiers t host).read (answers env t host .finderInfo) .finderInfo = some info)
      (fun _ t' => t' = t ∧ (env.deny t (.read (sidecar host)) = none →
        (tiers t host).read (answers env t host .finderInfo) .finderInfo = none)) t := by
  simp only [loadFinderInfo, wp_bind, wp_mapError]
  refine wp_mono (osGetxattr_spec .finderInfo) (fun native t' hn => ?_) fun _ _ h => h.elim
  obtain ⟨rfl, hn⟩ := hn
  cases native with
  | some native => exact ⟨rfl, by rw [Tiers.read, ← hn]; rfl⟩
  | none =>
    simp only [wp_bind, wp_pure, Tiers.read, ← hn, Option.map_none, Option.none_or]
    exact readSidecarEntry_spec .finderInfo

/-- The Finder info is padded. -/
theorem loadFinderInfo_length :
    wp (loadFinderInfo env host) (fun info _ => info.length = 32) (fun _ _ => True) t := by
  simp only [loadFinderInfo, wp_bind, wp_mapError]
  refine wp_mono (osGetxattr_spec .finderInfo) (fun native t' _ => ?_) fun _ _ _ => trivial
  cases native with
  | some native => exact padFinderInfo_length native
  | none =>
    rw [wp_bind]
    exact wp_mono (readSidecarEntry_spec .finderInfo) (fun _ _ _ => padFinderInfo_length _)
      fun _ _ _ => trivial

/-! ### Writes -/

theorem sidecarEntries_congr {t' : Tree} (h : t'.look (sidecar host) = t.look (sidecar host)) :
    sidecarEntries t' host = sidecarEntries t host := by
  have hheld : AppleDouble.held t' (sidecar host) = AppleDouble.held t (sidecar host) := by
    rw [AppleDouble.held, h]
    rfl
  rw [sidecarEntries, DirTree.has, h, hheld]
  rfl

/-- A native write. -/
theorem wrote_native (h : IsFile t host) (name : XattrName) (value : List UInt8) :
    Wrote t (t.setAttrs host fun attrs => attrs.set name value) host true name value where
  file := ⟨by rw [DirTree.has_setAttrs, h.has], by
    rw [DirTree.isDir, DirTree.look_setAttrs, if_pos rfl, Option.any_map]
    exact h.not_dir⟩
  tiers := by
    obtain ⟨e, he⟩ := DirTree.has_iff.mp h.has
    have hback : sidecarEntries (t.setAttrs host fun attrs => attrs.set name value) host =
        sidecarEntries t host :=
      sidecarEntries_congr (if_neg (host_ne_sidecar h).symm)
    refine Tiers.ext (funext fun q => ?_) (funext fun q => ?_)
    · simp only [tiers, Tree.xattr, DirTree.look_setAttrs, he, if_true, Option.map_some,
        Option.bind_some, Tiers.write, Dict.get?_set]
      by_cases hq : q = name
      · subst hq
        simp
      · simp [hq]
    · simp only [tiers, Tiers.write, if_true, hback]

/-- A write to the sidecar. -/
theorem wrote_sidecar (h : IsFile t host) {t' : Tree} {name : XattrName} {value : List UInt8}
    {entries : Dict Nat (List UInt8)} (hhost : t'.look host = t.look host)
    (hold : sidecarEntries t host = some entries)
    (hnew : sidecarEntries t' host = some (entries.set name.entryId value)) :
    Wrote t t' host false name value where
  file := isFile_congr h hhost
  tiers := by
    refine Tiers.ext (funext fun q => ?_) (funext fun q => ?_)
    · simp only [tiers, Tree.xattr, hhost, Tiers.write, Bool.false_eq_true, if_false]
    · simp only [tiers, Tiers.write, Bool.false_eq_true, if_false, hold, hnew, Option.map_some]
      by_cases hq : q = name
      · subst hq
        simp
      · rw [Dict.get?_set_of_ne _ _ (entryId_injective.ne hq), Function.update_of_ne hq]

theorem osSetxattr_wrote (h : IsFile t host) (name : XattrName) (value : List UInt8) :
    wp (osSetxattr env host name value)
      (fun native t' => native = accepts env t host name value ∧
        if native then Wrote t t' host true name value else t' = t)
      (fun _ _ => False) t := by
  simp only [osSetxattr, wp_bind, wp_get]
  split
  · rename_i hacc
    exact ⟨(decide_eq_true hacc).symm, wrote_native h name value⟩
  · rename_i hacc
    exact ⟨(decide_eq_false hacc).symm, rfl⟩

/-- The named fork of a file cannot be opened: it would stand below the file. -/
theorem openWrite_namedfork (h : IsFile t host) :
    wp (openWrite env (namedfork host)) (fun _ _ => False) (fun _ t' => t' = t) t := by
  refine wp_mono (openWrite_stored _) (fun _ t' ht => ?_) fun _ _ ht => ht
  obtain ⟨attrs, hlook⟩ := ht.2.content
  have hd := DirTree.isDir_of_has (DirTree.has_of_isDir (DirTree.isDir_of_has
    (DirTree.has_iff.mpr ⟨_, hlook⟩)))
  have hne : host ≠ namedfork host := fun heq => by
    have hlen := congrArg List.length heq
    simp only [namedfork, List.length_cons] at hlen
    omega
  rw [DirTree.isDir, ht.2.others hne] at hd
  exact absurd hd (Bool.eq_false_iff.mp h.not_dir)

theorem writeNamedfork_file (h : IsFile t host) (data : List UInt8) :
    wp (writeNamedfork env host data) (fun written t' => t' = t ∧ written = false)
      (fun _ _ => False) t := by
  have hfails : wp (writeBytes env (namedfork host) data) (fun _ _ => False)
      (fun _ t' => t' = t) t := by
    rw [writeBytes, wp_bind]
    exact wp_mono (openWrite_namedfork h) (fun _ _ h => h.elim) fun _ _ h => h
  simp only [writeNamedfork, wp_bind, wp_get]
  split
  · simp only [wp_tryCatch, wp_bind]
    exact wp_mono hfails (fun _ _ h => h.elim) fun _ _ h => ⟨h, rfl⟩
  · exact ⟨rfl, rfl⟩

theorem writeSidecarEntry_wrote (h : IsFile t host) (hfb : Fallback env host) (name : XattrName)
    (value : List UInt8) :
    wp (writeSidecarEntry env host name.entryId value)
      (fun _ t' => Wrote t t' host false name value) (fun _ t' => t' = t) t := by
  have hstore : ∀ ad : AppleDouble, sidecarEntries t host = some ad.entries →
      wp (AppleDouble.write env ⟨ad.entries.set name.entryId value⟩ (sidecar host))
        (fun _ t' => Wrote t t' host false name value) (fun _ t' => t' = t) t := by
    intro ad hold
    refine wp_mono (AppleDouble.write_held _ h.has_parent hfb.write) (fun _ t' ht => ?_)
      fun _ _ ht => ht
    obtain ⟨hheld, hhas, hothers⟩ := ht
    refine wrote_sidecar h (hothers _ (host_ne_sidecar h)) hold ?_
    simp only [sidecarEntries, hhas, if_true, hheld, Option.map_some]
  simp only [writeSidecarEntry, wp_bind, wp_get]
  split
  · rename_i hhas
    rw [wp_bind]
    refine wp_mono (AppleDouble.read_held _) (fun ad t' had => ?_) fun _ _ ht => ht.1
    obtain ⟨rfl, had⟩ := had
    exact hstore ad (by simp only [sidecarEntries, hhas, if_true, had, Option.map_some])
  · rename_i hhas
    exact hstore .new (by
      rw [sidecarEntries, if_neg hhas]
      rfl)

/-- **`write_resource_fork`** writes to one of the tiers or leaves the tree alone. -/
theorem storeResourceFork_wrote (h : IsFile t host) (hfb : Fallback env host)
    (data : List UInt8) :
    wp (storeResourceFork env host data)
      (fun _ t' => Wrote t t' host (accepts env t host .resourceFork data) .resourceFork data)
      (fun _ t' => t' = t) t := by
  simp only [storeResourceFork, wp_bind, wp_mapError]
  refine wp_mono (osSetxattr_wrote h .resourceFork data) (fun native t' hn => ?_)
    fun _ _ h => h.elim
  obtain ⟨hacc, hn⟩ := hn
  rw [← hacc]
  cases native with
  | true => exact hn
  | false =>
    simp only [Bool.false_eq_true, if_false] at hn
    subst hn
    simp only [Bool.false_eq_true, if_false, wp_bind, wp_mapError]
    refine wp_mono (writeNamedfork_file h data) (fun written t' hw => ?_) fun _ _ h => h.elim
    obtain ⟨rfl, rfl⟩ := hw
    exact writeSidecarEntry_wrote h hfb .resourceFork data

/-- **`set_finder_info`** writes to one of the tiers or leaves the tree alone. -/
theorem storeFinderInfo_wrote (h : IsFile t host) (hfb : Fallback env host)
    (data : List UInt8) :
    wp (storeFinderInfo env host data)
      (fun _ t' => Wrote t t' host (accepts env t host .finderInfo data) .finderInfo data)
      (fun _ t' => t' = t) t := by
  simp only [storeFinderInfo, wp_bind, wp_mapError]
  refine wp_mono (osSetxattr_wrote h .finderInfo data) (fun native t' hn => ?_)
    fun _ _ h => h.elim
  obtain ⟨hacc, hn⟩ := hn
  rw [← hacc]
  cases native with
  | true => exact hn
  | false =>
    simp only [Bool.false_eq_true, if_false] at hn
    subst hn
    exact writeSidecarEntry_wrote h hfb .finderInfo data

end Refines

/-! ## Calls -/

/-- The attribute a call writes. -/
def ForkCall.name : ForkCall → XattrName
  | .writeResourceFork _ => .resourceFork
  | .setFinderInfo _ | .setTypeCreator _ _ => .finderInfo

/-- The values written last, by attribute. -/
abbrev Last := XattrName → Option (List UInt8)

/-- The Finder info `info` with a type and a creator as its bytes 0 to 7. -/
def retyped (fileType creator : Signature) (info : List UInt8) : List UInt8 :=
  fileType.raw.toOption.getD [] ++ creator.raw.toOption.getD [] ++ info.drop 8

/-- What was written last once a call has returned. -/
def ForkCall.record (last : Last) : ForkCall → Last
  | .writeResourceFork data => Function.update last .resourceFork (some data)
  | .setFinderInfo data => Function.update last .finderInfo (some data)
  | .setTypeCreator fileType creator =>
    Function.update last .finderInfo ((last .finderInfo).map (retyped fileType creator))

/-- **When a call is read back.** A refused write must find no other native value; an accepted
write of `set_type_creator` must have read the bytes it keeps as they were, a refused one may also
find the type and the creator it sets. -/
def ForkCall.Meets (env : HostEnv) (t : Tree) (host : Path) : ForkCall → Prop
  | .writeResourceFork data =>
    ¬ (tiers t host).Shadows (accepts env t host .resourceFork data) .resourceFork data
  | .setFinderInfo data =>
    ¬ (tiers t host).Shadows (accepts env t host .finderInfo data) .finderInfo data
  | .setTypeCreator fileType creator => ∀ info held,
    (tiers t host).read (answers env t host .finderInfo) .finderInfo = some info →
    (tiers t host).read true .finderInfo = some held →
    if accepts env t host .finderInfo (retyped fileType creator info) then
      info.drop 8 = held.drop 8
    else
      (tiers t host).front .finderInfo = none ∨
        (tiers t host).front .finderInfo = some (retyped fileType creator held)

section Calls

variable {env : HostEnv} {n : Node} {w : World}

theorem writeResourceFork_wrote (h : IsFile w.tree n.host) (hfb : Fallback env n.host)
    (data : List UInt8) :
    wp (writeResourceFork env n data)
      (fun _ w' => Wrote w.tree w'.tree n.host (accepts env w.tree n.host .resourceFork data)
        .resourceFork data)
      (fun _ w' => w'.tree = w.tree) w := by
  simp only [writeResourceFork, onTree, onVfs, invalidatePath, wp_bind, wp_zoom, wp_get, wp_modify]
  exact storeResourceFork_wrote h hfb data

theorem setFinderInfo_wrote (h : IsFile w.tree n.host) (hfb : Fallback env n.host)
    (data : List UInt8) :
    wp (setFinderInfo env n data)
      (fun _ w' => data.length = 32 ∧
        Wrote w.tree w'.tree n.host (accepts env w.tree n.host .finderInfo data) .finderInfo data)
      (fun _ w' => w'.tree = w.tree) w := by
  rw [setFinderInfo]
  split
  · rfl
  · rename_i hlen
    simp only [onTree, onVfs, invalidatePath, wp_bind, wp_zoom, wp_get, wp_modify]
    exact wp_mono (storeFinderInfo_wrote h hfb data) (fun _ _ h => ⟨not_not.mp hlen, h⟩)
      fun _ _ h => h

theorem retype_eq {fileType : List UInt8} (creator info : List UInt8) (hf : fileType.length = 4) :
    retype fileType creator info = fileType ++ creator ++ info.drop 8 := by
  have htake : (fileType ++ info.drop 4).take 4 = fileType := List.take_left' hf
  have hdrop : (fileType ++ info.drop 4).drop 8 = info.drop 8 := by
    rw [List.drop_append, hf, List.drop_drop, List.drop_of_length_le (by omega)]
    rfl
  rw [retype, assign, assign, List.take_zero, List.nil_append, htake, hdrop]

theorem resourceFork_spec (h : IsFile w.tree n.host) :
    wp (resourceFork env n)
      (fun data w' => w' = w ∧ (tiers w.tree n.host).read
        (answers env w.tree n.host .resourceFork) .resourceFork = some data)
      (fun _ w' => w'.tree = w.tree ∧ (env.deny w.tree (.read (sidecar n.host)) = none →
        (tiers w.tree n.host).read (answers env w.tree n.host .resourceFork) .resourceFork =
          none)) w := by
  rw [resourceFork, onTree, wp_zoom]
  refine wp_mono (loadResourceFork_spec h) (fun data t' h => ?_) fun _ _ h => h
  obtain ⟨rfl, h⟩ := h
  exact ⟨rfl, h⟩

theorem finderInfo_spec :
    wp (finderInfo env n)
      (fun info w' => w' = w ∧ (tiers w.tree n.host).read
        (answers env w.tree n.host .finderInfo) .finderInfo = some info)
      (fun _ w' => w'.tree = w.tree ∧ (env.deny w.tree (.read (sidecar n.host)) = none →
        (tiers w.tree n.host).read (answers env w.tree n.host .finderInfo) .finderInfo =
          none)) w := by
  rw [finderInfo, onTree, wp_zoom]
  refine wp_mono loadFinderInfo_spec (fun info t' h => ?_) fun _ _ h => h
  obtain ⟨rfl, h⟩ := h
  exact ⟨rfl, h⟩

/-- `set_type_creator` sets what its own read gave, with the new type and creator. -/
theorem setTypeCreator_wrote (h : IsFile w.tree n.host) (hfb : Fallback env n.host)
    (fileType creator : Signature) :
    wp (setTypeCreator env n fileType creator)
      (fun _ w' => ∃ info, (tiers w.tree n.host).read
          (answers env w.tree n.host .finderInfo) .finderInfo = some info ∧
        (retyped fileType creator info).length = 32 ∧
        Wrote w.tree w'.tree n.host
          (accepts env w.tree n.host .finderInfo (retyped fileType creator info)) .finderInfo
          (retyped fileType creator info))
      (fun _ w' => w'.tree = w.tree) w := by
  rw [setTypeCreator, wp_bind]
  refine wp_ofExcept (fun rawType hType => ?_) fun _ _ => rfl
  rw [wp_bind]
  refine wp_ofExcept (fun rawCreator hCreator => ?_) fun _ _ => rfl
  split
  · rfl
  · rename_i hlen
    rw [wp_bind]
    refine wp_mono finderInfo_spec (fun info w' hinfo => ?_) fun _ _ h => h.1
    obtain ⟨rfl, hinfo⟩ := hinfo
    have heq : retype rawType rawCreator info = retyped fileType creator info := by
      rw [retype_eq _ _ (not_not.mp (not_or.mp hlen).1), retyped, hType, hCreator]
      rfl
    rw [heq]
    exact wp_mono (setFinderInfo_wrote h hfb _) (fun _ _ hw => ⟨info, hinfo, hw⟩) fun _ _ h => h

theorem Wrote.read_of_ne {t t' : Tree} {host : Path} {native : Bool} {name q : XattrName}
    {value : List UInt8} (h : Wrote t t' host native name value) (hq : q ≠ name) :
    (Vfs.tiers t' host).read true q = (Vfs.tiers t host).read true q := by
  rw [h.tiers, Tiers.read_write_of_ne _ _ _ _ hq]

theorem retyped_inj {fileType creator : Signature} {info held : List UInt8} :
    retyped fileType creator info = retyped fileType creator held ↔
      info.drop 8 = held.drop 8 :=
  List.append_right_inj _

theorem meets_setTypeCreator_iff {t : Tree} {host : Path} {fileType creator : Signature}
    {info held : List UInt8}
    (hinfo : (tiers t host).read (answers env t host .finderInfo) .finderInfo = some info)
    (hheld : (tiers t host).read true .finderInfo = some held) :
    (ForkCall.setTypeCreator fileType creator).Meets env t host ↔
      ((tiers t host).write (accepts env t host .finderInfo (retyped fileType creator info))
        .finderInfo (retyped fileType creator info)).read true .finderInfo =
        some (retyped fileType creator held) := by
  have hiff : (ForkCall.setTypeCreator fileType creator).Meets env t host ↔
      if accepts env t host .finderInfo (retyped fileType creator info) then
        info.drop 8 = held.drop 8
      else
        (tiers t host).front .finderInfo = none ∨
          (tiers t host).front .finderInfo = some (retyped fileType creator held) := by
    constructor
    · intro h
      exact h info held hinfo hheld
    · intro h info' held' hinfo' hheld'
      cases hinfo.symm.trans hinfo'
      cases hheld.symm.trans hheld'
      exact h
  rw [hiff, Tiers.read_write_self]
  cases accepts env t host .finderInfo (retyped fileType creator info) with
  | true => rw [if_pos rfl, if_pos rfl, Option.some.injEq, retyped_inj]
  | false =>
    rw [if_neg Bool.false_ne_true, if_neg Bool.false_ne_true]
    cases hfront : (tiers t host).front .finderInfo with
    | none =>
      -- without a native value the call has read what any read gives
      rw [Tiers.read_of_front_none hfront, hheld] at hinfo
      cases hinfo
      simp
    | some native => simp

/-- What a returned call does to the reads that the native store answers. -/
structure CallRead (env : HostEnv) (t t' : Tree) (host : Path) (call : ForkCall) : Prop where
  file : IsFile t' host
  others : ∀ {q}, q ≠ call.name → (tiers t' host).read true q = (tiers t host).read true q
  recorded : call.record ((tiers t host).read true) call.name ≠ none
  meets_iff : (tiers t' host).read true call.name =
    call.record ((tiers t host).read true) call.name ↔ call.Meets env t host

theorem ForkCall.record_of_ne {call : ForkCall} {last : Last} {q : XattrName}
    (h : q ≠ call.name) : call.record last q = last q := by
  cases call <;> exact Function.update_of_ne h _ _

/-- All reads are as recorded when the one of the attribute written is. -/
theorem CallRead.read_iff {t t' : Tree} {host : Path} {call : ForkCall}
    (h : CallRead env t t' host call) :
    (tiers t' host).read true = call.record ((tiers t host).read true) ↔
      call.Meets env t host := by
  rw [← h.meets_iff]
  constructor
  · intro hread
    rw [hread]
  · intro hread
    funext q
    by_cases hq : q = call.name
    · rw [hq, hread]
    · rw [h.others hq, ForkCall.record_of_ne hq]

/-- **A returned call** is read back exactly when it meets the condition; one that raises has
changed nothing. -/
theorem run_spec (h : IsFile w.tree n.host) (hfb : Fallback env n.host) (call : ForkCall) :
    wp (call.run env n) (fun _ w' => CallRead env w.tree w'.tree n.host call)
      (fun _ w' => w'.tree = w.tree) w := by
  cases call with
  | writeResourceFork data =>
    refine wp_mono (writeResourceFork_wrote h hfb data) (fun _ w' hw => ?_) fun _ _ h => h
    refine ⟨hw.file, hw.read_of_ne, ?_, ?_⟩
    · simp [ForkCall.record, ForkCall.name]
    · simp only [ForkCall.record, ForkCall.name, Function.update_self, hw.tiers, ForkCall.Meets]
      exact Tiers.read_write_self_iff _ _ _ data
  | setFinderInfo data =>
    refine wp_mono (setFinderInfo_wrote h hfb data) (fun _ w' hw => ?_) fun _ _ h => h
    obtain ⟨hlen, hw⟩ := hw
    refine ⟨hw.file, hw.read_of_ne, ?_, ?_⟩
    · simp [ForkCall.record, ForkCall.name]
    · have hreading : XattrName.finderInfo.reading data = data := padFinderInfo_of_length hlen
      simp only [ForkCall.record, ForkCall.name, Function.update_self, hw.tiers, ForkCall.Meets,
        hreading]
      exact Tiers.read_write_self_iff _ _ _ data
  | setTypeCreator fileType creator =>
    refine wp_mono (setTypeCreator_wrote h hfb fileType creator) (fun _ w' hw => ?_) fun _ _ h => h
    obtain ⟨info, hinfo, hlen, hw⟩ := hw
    obtain ⟨held, hheld⟩ := Tiers.exists_read hinfo
    refine ⟨hw.file, hw.read_of_ne, ?_, ?_⟩
    · simp [ForkCall.record, ForkCall.name, hheld]
    · have hreading : XattrName.finderInfo.reading (retyped fileType creator info) =
          retyped fileType creator info := padFinderInfo_of_length hlen
      simp only [ForkCall.record, ForkCall.name, Function.update_self, hw.tiers, hheld,
        Option.map_some, hreading]
      exact (meets_setTypeCreator_iff hinfo hheld).symm

end Calls

/-! ## Runs -/

/-- A call, and what the host answers during it. -/
structure ForkStep where
  env : HostEnv
  call : ForkCall

/-- The step returns. -/
def ForkStep.Returns (n : Node) (w : World) (step : ForkStep) : Prop :=
  okState (step.call.run step.env n w) ≠ none

/-- The world and the values last written after a step. -/
def forkStep (n : Node) (s : World × Last) (step : ForkStep) : World × Last :=
  match step.call.run step.env n s.1 with
  | .ok _ w => (w, step.call.record s.2)
  | .error _ w => (w, s.2)

/-- The world and the values last written after a run. -/
def forkRun (n : Node) (s : World × Last) (steps : List ForkStep) : World × Last :=
  steps.foldl (forkStep n) s

/-- What the forks read as before anything was written. -/
def firstRead (n : Node) (w : World) : Last
  | .resourceFork => okValue (resourceFork calm n w)
  | .finderInfo => okValue (finderInfo calm n w)

/-- The silence of the native store does not show in a read of `name`. -/
def Heard (env : HostEnv) (t : Tree) (host : Path) (name : XattrName) : Prop :=
  (tiers t host).Repeats (answers env t host name) name

/-- The forks read as they were last written, exactly as far as the native store is heard. -/
structure ReadsLast (env : HostEnv) (n : Node) (s : World × Last) : Prop where
  resourceFork : ∀ {data}, s.2 .resourceFork = some data →
    (resourceFork env n s.1 = .ok data s.1 ↔ Heard env s.1.tree n.host .resourceFork)
  finderInfo : ∀ {info}, s.2 .finderInfo = some info →
    (finderInfo env n s.1 = .ok info s.1 ↔ Heard env s.1.tree n.host .finderInfo)

/-- Every step that returns meets the condition in the state before it. -/
def AllMeet (n : Node) : World × Last → List ForkStep → Prop
  | _, [] => True
  | s, step :: steps =>
    (step.Returns n s.1 → step.call.Meets step.env s.1.tree n.host) ∧
      AllMeet n (forkStep n s step) steps

/-- The invariant of a run: a read that the native store answers gives what was written last. -/
structure UpToDate (n : Node) (s : World × Last) : Prop where
  file : IsFile s.1.tree n.host
  last : (tiers s.1.tree n.host).read true = s.2

section Runs

variable {env : HostEnv} {n : Node} {w : World} {s : World × Last}

/-- A reader that gives `r` and changes nothing. -/
structure Reader (x : WorldM (List UInt8)) (w : World) (r : Option (List UInt8)) : Prop where
  value : okValue (x w) = r
  ok_iff : ∀ {data}, x w = .ok data w ↔ r = some data

theorem reader_of_wp {x : WorldM (List UInt8)} {r : Option (List UInt8)}
    (h : wp x (fun data w' => w' = w ∧ r = some data) (fun _ _ => r = none) w) : Reader x w r := by
  unfold wp at h
  cases hx : x w with
  | ok data' w' =>
    rw [hx] at h
    obtain ⟨rfl, rfl⟩ := h
    exact ⟨by rw [hx]; rfl, by simp [hx]⟩
  | error e w' =>
    rw [hx] at h
    change r = none at h
    subst h
    exact ⟨by rw [hx]; rfl, by simp [hx]⟩

theorem resourceFork_reader (h : IsFile w.tree n.host) (hfb : Fallback env n.host) :
    Reader (resourceFork env n) w ((tiers w.tree n.host).read
      (answers env w.tree n.host .resourceFork) .resourceFork) :=
  reader_of_wp (wp_mono (resourceFork_spec h) (fun _ _ h => h) fun _ _ h => h.2 (hfb.read _))

theorem finderInfo_reader (hfb : Fallback env n.host) :
    Reader (finderInfo env n) w ((tiers w.tree n.host).read
      (answers env w.tree n.host .finderInfo) .finderInfo) :=
  reader_of_wp (wp_mono finderInfo_spec (fun _ _ h => h) fun _ _ h => h.2 (hfb.read _))

theorem calm_fallback (host : Path) : Fallback calm host := ⟨fun _ => rfl, fun _ _ => rfl⟩

theorem firstRead_eq (h : IsFile w.tree n.host) :
    (tiers w.tree n.host).read true = firstRead n w := by
  funext name
  cases name with
  | resourceFork => exact (resourceFork_reader h (calm_fallback n.host)).value.symm
  | finderInfo => exact (finderInfo_reader (calm_fallback n.host)).value.symm

/-- What the invariant says of the reads. -/
theorem UpToDate.readsLast (h : UpToDate n s) (hfb : Fallback env n.host) :
    ReadsLast env n s where
  resourceFork hlast := by
    rw [(resourceFork_reader h.file hfb).ok_iff, Heard, ← Tiers.read_silent_iff, h.last, hlast]
  finderInfo hlast := by
    rw [(finderInfo_reader hfb).ok_iff, Heard, ← Tiers.read_silent_iff, h.last, hlast]

/-- **One step** keeps the invariant exactly when it meets the condition or raises. -/
theorem step_iff (h : UpToDate n s) {step : ForkStep} (hfb : Fallback step.env n.host) :
    UpToDate n (forkStep n s step) ↔
      (step.Returns n s.1 → step.call.Meets step.env s.1.tree n.host) := by
  unfold forkStep ForkStep.Returns
  have hspec := run_spec h.file hfb step.call
  cases hrun : step.call.run step.env n s.1 with
  | ok u w =>
    have hcall := wp_of_ok hspec hrun
    have hiff := hcall.read_iff
    rw [h.last] at hiff
    constructor
    · intro hinv _
      exact hiff.mp hinv.last
    · intro hmeets
      exact ⟨hcall.file, hiff.mpr (hmeets (Option.some_ne_none w))⟩
  | error e w =>
    have htree := wp_of_error hspec hrun
    constructor
    · intro _ hret
      exact absurd rfl hret
    · intro _
      refine ⟨?_, ?_⟩
      · show IsFile w.tree n.host
        rw [htree]
        exact h.file
      · show (tiers w.tree n.host).read true = s.2
        rw [htree, h.last]

/-- What is read after a step is enough for the invariant. -/
theorem UpToDate.of_readsLast (h : UpToDate n s) {step : ForkStep}
    (hfb : Fallback step.env n.host) (hread : ReadsLast calm n (forkStep n s step)) :
    UpToDate n (forkStep n s step) := by
  rw [step_iff h hfb]
  intro hret
  unfold ForkStep.Returns at hret
  unfold forkStep at hread
  have hspec := run_spec h.file hfb step.call
  cases hrun : step.call.run step.env n s.1 with
  | error e w =>
    rw [hrun] at hret
    exact absurd rfl hret
  | ok u w =>
    rw [hrun] at hread
    have hcall := wp_of_ok hspec hrun
    rw [← hcall.meets_iff, h.last, firstRead_eq hcall.file]
    have hrec := hcall.recorded
    rw [h.last] at hrec
    obtain ⟨target, htarget⟩ := Option.ne_none_iff_exists'.mp hrec
    rw [htarget]
    cases hname : step.call.name with
    | resourceFork =>
      rw [hname] at htarget
      show okValue (resourceFork calm n w) = some target
      rw [(hread.resourceFork htarget).mpr (Or.inl rfl)]
      rfl
    | finderInfo =>
      rw [hname] at htarget
      show okValue (finderInfo calm n w) = some target
      rw [(hread.finderInfo htarget).mpr (Or.inl rfl)]
      rfl

/-- **A run reads back** what was written last, in all of its states, exactly when its steps meet
the condition. -/
theorem run_iff (h : UpToDate n s) {steps : List ForkStep}
    (hfb : ∀ step ∈ steps, Fallback step.env n.host) :
    (∀ before, before <+: steps → ∀ env, Fallback env n.host →
      ReadsLast env n (forkRun n s before)) ↔ AllMeet n s steps := by
  induction steps generalizing s with
  | nil =>
    constructor
    · intro _
      exact trivial
    · intro _ before hbefore env henv
      rw [List.prefix_nil.mp hbefore]
      exact h.readsLast henv
  | cons step steps ih =>
    have hstep := hfb step List.mem_cons_self
    have hsteps : ∀ step ∈ steps, Fallback step.env n.host :=
      fun step hmem => hfb step (List.mem_cons_of_mem _ hmem)
    constructor
    · intro hreads
      have hone : ReadsLast calm n (forkStep n s step) :=
        hreads [step] ⟨steps, rfl⟩ calm (calm_fallback n.host)
      have hinv := h.of_readsLast hstep hone
      refine ⟨(step_iff h hstep).mp hinv, (ih hinv hsteps).mp fun before hbefore env henv => ?_⟩
      exact hreads (step :: before) (List.cons_prefix_cons.mpr ⟨rfl, hbefore⟩) env henv
    · intro hmeets before hbefore env henv
      have hinv := (step_iff h hstep).mpr hmeets.1
      cases before with
      | nil => exact h.readsLast henv
      | cons first before =>
        obtain ⟨rfl, hrest⟩ := List.cons_prefix_cons.mp hbefore
        exact (ih hinv hsteps).mpr hmeets.2 before hrest env henv

/-- **Forks read back what was written last**: for every file and every sequence of calls, after
each of them and whatever native store is asked and heard, exactly when each call that returns
meets the condition in the state before it. -/
theorem forks_lastWritten {n : Node} {w : World} (hfile : IsFile w.tree n.host)
    {steps : List ForkStep} (hfb : ∀ step ∈ steps, Fallback step.env n.host) :
    (∀ before, before <+: steps → ∀ env, Fallback env n.host →
      ReadsLast env n (forkRun n (w, firstRead n w) before)) ↔
      AllMeet n (w, firstRead n w) steps :=
  run_iff ⟨hfile, firstRead_eq hfile⟩ hfb

end Runs

/-! ## Two runs -/

/-- A host without native attributes. -/
def plainHost : HostEnv where
  deny _ call :=
    match call with
    | .setxattr p _ _ | .getxattr p _ => some (osError 95 "Operation not supported" p)
    | _ => none
  short _ _ := 0

/-- The file of the small tree. -/
def forkNode : Node := ⟨0, [['f'], ['s'], ['d'], ['p']], .build, 3⟩

/-- The small tree before any call. -/
def fileWorld : World := .start smallTree .empty 0 [['p']]

/-- A write to each tier: the resource fork as a native attribute, the Finder info in the
sidecar. -/
def mixedSteps : List ForkStep :=
  [⟨calm, .writeResourceFork [1, 2]⟩, ⟨plainHost, .setFinderInfo (List.replicate 32 7)⟩]

/-- Both are read back, the one in the sidecar also where there are no native attributes. -/
theorem forks_lastWritten_mixed :
    let s := forkRun forkNode (fileWorld, firstRead forkNode fileWorld) mixedSteps
    resourceFork calm forkNode s.1 = .ok [1, 2] s.1 ∧
      finderInfo plainHost forkNode s.1 = .ok (List.replicate 32 7) s.1 := by
  have hfile : IsFile fileWorld.tree forkNode.host := ⟨by decide, by decide⟩
  have hcalm : Fallback calm forkNode.host := calm_fallback _
  have hplain : Fallback plainHost forkNode.host := ⟨fun _ => rfl, fun _ _ => rfl⟩
  have hfb : ∀ step ∈ mixedSteps, Fallback step.env forkNode.host := by
    intro step hstep
    rcases List.mem_pair.mp hstep with rfl | rfl
    · exact hcalm
    · exact hplain
  have hmeet : AllMeet forkNode (fileWorld, firstRead forkNode fileWorld) mixedSteps := by
    refine ⟨fun _ => ?_, fun _ => ?_, trivial⟩
    · show ¬ Tiers.Shadows _ _ _ _
      decide
    · show ¬ Tiers.Shadows _ _ _ _
      decide
  have hreads := (forks_lastWritten hfile hfb).mpr hmeet mixedSteps (List.prefix_refl _)
  exact ⟨((hreads calm hcalm).resourceFork rfl).mpr (Or.inl rfl),
    ((hreads plainHost hplain).finderInfo rfl).mpr (Or.inr (Or.inl (by decide)))⟩

/-- A write that the native store refuses, after one that it has accepted: both return, and the
fork still reads as the first one. -/
theorem resourceFork_stale :
    let s := forkRun forkNode (fileWorld, firstRead forkNode fileWorld)
      [⟨calm, .writeResourceFork [1]⟩, ⟨plainHost, .writeResourceFork [2]⟩]
    s.2 .resourceFork = some [2] ∧ okValue (resourceFork calm forkNode s.1) = some [1] := by
  decide

end Cwhost.Vfs
