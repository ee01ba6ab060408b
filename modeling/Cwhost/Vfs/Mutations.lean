import Cwhost.Vfs.AppleDouble
import Cwhost.Vfs.Nodes

/-!
# Mutations (`vfs.py`, the writing half of `Node`)

A `World` is the host's tree with the registry of one VFS. Every mutation first makes the host
change its tree, which can fail, and drops listings after that has succeeded.

* `NodeOp`, `World.step`: the operations through the nodes of one VFS, in any order.
* `hostDelete_spec`, `writeSidecarEntry_spec`, `storeResourceFork_spec`: what they do to the set of
  entries.
-/

namespace Cwhost.Vfs

open Lib

/-- The files of the host, and what the VFS knows of them. -/
structure World where
  tree : Tree
  registry : Registry

/-- A method that works on the host and on the VFS. -/
abbrev WorldM := EStateM Exc World

/-- Work of the host. -/
def onTree {α : Type} (x : EStateM Exc Tree α) : WorldM α :=
  zoom World.tree (fun w t => { w with tree := t }) x

/-- Work of the VFS, on the tree as it is. -/
def onVfs {α : Type} (env : HostEnv) (x : HostView → VfsM α) : WorldM α := do
  let w ← get
  zoom World.registry (fun w s => { w with registry := s }) (x (w.tree.view env))

/-! ## Work of the host -/

/-- `Node._sidecar`. -/
def sidecar (host : Path) : Path := ('.' :: '_' :: host.headD []) :: host.tail

/-- `..namedfork`, the directory of a file's forks. -/
def dotNamedfork : Str := ['.', '.', 'n', 'a', 'm', 'e', 'd', 'f', 'o', 'r', 'k']

/-- `host / "..namedfork" / "rsrc"`. -/
def namedfork (host : Path) : Path := ['r', 's', 'r', 'c'] :: dotNamedfork :: host

/-- The host's part of `delete`. -/
def hostDelete (env : HostEnv) (host : Path) : OsM Unit := do
  if (← get).isDir host then osRmdir env host else osUnlink env host

/-- `_write_sidecar_entry`. -/
def writeSidecarEntry (env : HostEnv) (host : Path) (entryId : Nat) (data : List UInt8) :
    EStateM Exc Tree Unit := do
  let ad ← if (← get).has (sidecar host) then AppleDouble.read env (sidecar host)
    else pure AppleDouble.new
  AppleDouble.write env ⟨ad.entries.set entryId data⟩ (sidecar host)

/-- Writing the named fork, and whether that was tried and succeeded. -/
def writeNamedfork (env : HostEnv) (host : Path) (data : List UInt8) : OsM Bool := do
  let t ← get
  if t.has (namedfork host) ∨ t.has host then
    try
      writeBytes env (namedfork host) data
      return true
    catch _ => return false
  else return false

/-- The host's part of `write_resource_fork`: the native attribute, else the named fork, else the
sidecar. -/
def storeResourceFork (env : HostEnv) (host : Path) (data : List UInt8) :
    EStateM Exc Tree Unit := do
  if ← mapError (fun e => .osError e.text) (osSetxattr env host .resourceFork data) then return
  if ← mapError (fun e => .osError e.text) (writeNamedfork env host data) then return
  writeSidecarEntry env host 2 data

/-- The host's part of `set_finder_info`: the native attribute, else the sidecar. -/
def storeFinderInfo (env : HostEnv) (host : Path) (data : List UInt8) :
    EStateM Exc Tree Unit := do
  if ← mapError (fun e => .osError e.text) (osSetxattr env host .finderInfo data) then return
  writeSidecarEntry env host 9 data

/-! ## The methods -/

section Methods

variable (env : HostEnv)

/-- `Node.write_data_fork`. -/
def writeDataFork (n : Node) (data : List UInt8) : WorldM Unit := do
  let text := String.ofList (pathText n.host)
  onTree (mapError (fun e => .hostError s!"cannot write data fork {text}: {e.text}")
    (createFile env n.host data))
  onVfs env (invalidatePath · n.host)

/-- `Node.delete`. -/
def delete (n : Node) : WorldM Unit := do
  let text := String.ofList (pathText n.host)
  onTree (mapError (fun e => .hostError s!"cannot delete {text}: {e.text}")
    (hostDelete env n.host))
  onVfs env (invalidatePath · n.host)

/-- `Node.rename`, to a canonical path. -/
def rename (n : Node) (destination : Path) : WorldM Node := do
  let text := String.ofList (pathText n.host)
  let destinationText := String.ofList (pathText destination)
  onTree (mapError
    (fun e => .hostError s!"cannot rename {text} to {destinationText}: {e.text}")
    (osRename env n.host destination))
  onVfs env (invalidatePath · n.host)
  onVfs env (invalidatePath · destination)
  onVfs env (node · destination)

/-- `Node.write_resource_fork`. The three exits of the source drop the same listings. -/
def writeResourceFork (n : Node) (data : List UInt8) : WorldM Unit := do
  onTree (storeResourceFork env n.host data)
  onVfs env (invalidatePath · n.host)

/-- `Node.set_finder_info`. -/
def setFinderInfo (n : Node) (data : List UInt8) : WorldM Unit := do
  if data.length ≠ 32 then throw (.hostError "FinderInfo must be exactly 32 bytes")
  onTree (storeFinderInfo env n.host data)
  onVfs env (invalidatePath · n.host)

end Methods

/-- An operation through the node of a canonical path. -/
inductive NodeOp
  | children (path : Path)
  | childrenNamed (path : Path) (name : Str)
  | writeDataFork (path : Path) (data : List UInt8)
  | delete (path : Path)
  | rename (path destination : Path)
  | writeResourceFork (path : Path) (data : List UInt8)
  | setFinderInfo (path : Path) (data : List UInt8)

/-- The path of the node. -/
def NodeOp.path : NodeOp → Path
  | .children p | .childrenNamed p _ | .writeDataFork p _ | .delete p | .rename p _
  | .writeResourceFork p _ | .setFinderInfo p _ => p

/-- The operation on the node. -/
def NodeOp.on (fold : Str → Str) (env : HostEnv) (n : Node) : NodeOp → WorldM Unit
  | .children _ => discard (onVfs env (Vfs.children fold · n))
  | .childrenNamed _ name => discard (onVfs env (Vfs.childrenNamed fold · n name))
  | .writeDataFork _ data => Vfs.writeDataFork env n data
  | .delete _ => Vfs.delete env n
  | .rename _ destination => discard (Vfs.rename env n destination)
  | .writeResourceFork _ data => Vfs.writeResourceFork env n data
  | .setFinderInfo _ data => Vfs.setFinderInfo env n data

/-- `vfs.node(path)` and the operation on it. -/
def NodeOp.call (fold : Str → Str) (env : HostEnv) (op : NodeOp) : WorldM Unit := do
  let n ← onVfs env (node · op.path)
  op.on fold env n

/-- The world an operation leaves behind, whether it returns or raises. -/
def World.step (fold : Str → Str) (w : World) (env : HostEnv) (op : NodeOp) : World :=
  endState (op.call fold env w)

/-- A tree, and a new VFS on it. -/
def World.start (tree : Tree) (nodeById : Dict Nat Node) (ident : Nat) (buildRoot : Path) : World :=
  ⟨tree, .init nodeById ident buildRoot⟩

/-! ## What the host's part does to the entries -/

section Specs

variable {env : HostEnv} {t : Tree}

theorem hostDelete_spec (host : Path) :
    wp (hostDelete env host) (fun _ t' => Removed t t' host) (fun _ t' => t' = t) t := by
  simp only [hostDelete, wp_bind, wp_get]
  split
  · exact osRmdir_spec host
  · exact osUnlink_spec host

theorem writeSidecarEntry_spec (host : Path) (entryId : Nat) (data : List UInt8) :
    wp (writeSidecarEntry env host entryId data)
      (fun _ t' => Grows (towards (sidecar host)) t t')
      (fun _ t' => Grows (towards (sidecar host)) t t') t := by
  simp only [writeSidecarEntry, wp_bind, wp_get]
  split
  · rw [wp_bind]
    refine wp_mono (AppleDouble.read_spec _) (fun ad t₁ h => ?_) fun _ t₁ h => ?_
    · rw [h]
      exact AppleDouble.write_spec _ _
    · rw [h]
      exact Grows.refl _ t
  · exact AppleDouble.write_spec _ _

theorem writeNamedfork_spec (host : Path) (data : List UInt8) :
    wp (writeNamedfork env host data) (fun _ t' => Grows (· = namedfork host) t t')
      (fun _ _ => False) t := by
  simp only [writeNamedfork, wp_bind, wp_get]
  split
  · simp only [wp_tryCatch, wp_bind]
    exact writeBytes_spec _ data
  · exact Grows.refl _ t

/-- The native attributes are no entries. -/
theorem setxattr_grows (on : Path → Prop) {p : Path} {name : XattrName} {value : List UInt8} :
    wp (osSetxattr env p name value) (fun _ t' => Grows on t t') (fun _ _ => False) t :=
  wp_mono (osSetxattr_spec p name value)
    (fun _ _ h => ⟨fun hq => (h _).trans hq, fun hq => Or.inl ((h _).symm.trans hq)⟩)
    fun _ _ h => h

/-- The entries `write_resource_fork` may add. -/
def forkPaths (host q : Path) : Prop := q = namedfork host ∨ q <:+ sidecar host

theorem storeResourceFork_spec (host : Path) (data : List UInt8) :
    wp (storeResourceFork env host data) (fun _ t' => Grows (forkPaths host) t t')
      (fun _ t' => Grows (forkPaths host) t t') t := by
  simp only [storeResourceFork, wp_bind, wp_mapError]
  refine wp_mono (setxattr_grows (forkPaths host)) (fun b t₁ h₁ => ?_) fun _ _ h => h.elim
  cases b with
  | true => exact h₁
  | false =>
    simp only [Bool.false_eq_true, if_false, wp_bind, wp_mapError]
    refine wp_mono (writeNamedfork_spec host data) (fun b t₂ h₂ => ?_) fun _ _ h => h.elim
    have h₂ := h₁.trans (h₂.mono fun _ => Or.inl)
    cases b with
    | true => exact h₂
    | false =>
      exact wp_mono (writeSidecarEntry_spec host 2 data)
        (fun _ _ h => h₂.trans (h.mono fun _ => Or.inr))
        fun _ _ h => h₂.trans (h.mono fun _ => Or.inr)

theorem storeFinderInfo_spec (host : Path) (data : List UInt8) :
    wp (storeFinderInfo env host data) (fun _ t' => Grows (towards (sidecar host)) t t')
      (fun _ t' => Grows (towards (sidecar host)) t t') t := by
  simp only [storeFinderInfo, wp_bind, wp_mapError]
  refine wp_mono (setxattr_grows (towards (sidecar host))) (fun b t₁ h₁ => ?_)
    fun _ _ h => h.elim
  cases b with
  | true => exact h₁
  | false =>
    exact wp_mono (writeSidecarEntry_spec host 9 data) (fun _ _ h => h₁.trans h)
      fun _ _ h => h₁.trans h

end Specs

end Cwhost.Vfs
