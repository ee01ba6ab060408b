import Cwhost.Vfs.DataForks
import Cwhost.Vfs.Sidecars

/-!
# The output file (`cli/cwcc.py`, `_write_output`)

The object is written to the data fork of the output file, in a directory made for it, and the file
gets the type and the creator of an MPW object.

* `Touches`: what a write to a file may touch: the file, its sidecar, and directories it makes on
  the way.
* `writeOutput_spec`: however it ends, it touches nothing else; when it returns, the file holds the
  data, and its Finder info says `XCOF` and `MPS `, in the native attribute or, where the host
  refuses that, in the sidecar.
* `writeOutput_readBack`: **whoever reads the output file finds the data, the type and the
  creator**.

Premises: a `Tree` without symbolic links; the output path is canonical.
-/

namespace Cwhost.Vfs

open Lib

/-! ## What is touched -/

/-- Every entry but the file at `p` and its sidecar is as it was, unless it is new and on the way to
the file. -/
def Touches (p : Path) (t t' : Tree) : Prop :=
  ∀ q, q ≠ p → q ≠ sidecar p → t.has q = true ∨ ¬ q <:+ p → t'.look q = t.look q

theorem touches_steps (p : Path) : Steps (Touches p) where
  refl _ _ _ _ _ := rfl
  trans {t t₁ t'} h h' q hq hside hold := by
    have hfirst := h q hq hside hold
    refine (h' q hq hside ?_).trans hfirst
    rcases hold with hhas | hway
    · rw [DirTree.has, hfirst]
      exact Or.inl hhas
    · exact Or.inr hway

theorem Rewrote.touches {p q : Path} {t t' : Tree} (h : Rewrote q t t')
    (hq : q = p ∨ q = sidecar p) : Touches p t t' := by
  intro x hx hside _
  refine h.others fun heq => ?_
  rcases hq with rfl | rfl
  · exact hx heq
  · exact hside heq

section Host

variable {env : HostEnv} {p : Path}

theorem osMkdir_touches {d : Path} (hd : d <:+ p) : Along (Touches p) (osMkdir env d) := by
  have hrefuse : Along (Touches p) (refuse env (.mkdir d)) := .of_wp fun t =>
    refuse_spec _ ((touches_steps p).refl t) fun _ => (touches_steps p).refl t
  refine .bind (touches_steps p) hrefuse fun _ => .of_wp fun t => ?_
  rw [wp_bind, wp_get]
  split
  · exact (touches_steps p).refl t
  · rename_i hnew
    rw [putEntry, wp_bind, wp_get]
    split
    · intro q _ _ hold
      rw [DirTree.look_put, if_neg]
      rintro rfl
      rcases hold with hhas | hway
      · exact hnew hhas
      · exact hway hd
    · split <;> exact (touches_steps p).refl t

theorem mkdirOne_touches {d : Path} (hd : d <:+ p) : Along (Touches p) (mkdirOne env d) :=
  .tryCatch (touches_steps p) (osMkdir_touches hd) fun e =>
    .bind (touches_steps p) (.get (touches_steps p)) fun _ =>
      .ite (.throw (touches_steps p) e) (.pure (touches_steps p) _)

/-- Directories on the way. -/
theorem mkdirs_touches {d : Path} (hd : d <:+ p) : Along (Touches p) (mkdirs env d) := by
  induction d with
  | nil => exact mkdirOne_touches hd
  | cons n d ih =>
    refine .tryCatch (touches_steps p) (osMkdir_touches hd) fun e => .ite ?_ ?_
    · exact .bind (touches_steps p) (ih ((List.suffix_cons n d).trans hd)) fun _ =>
        mkdirOne_touches hd
    · exact .bind (touches_steps p) (.get (touches_steps p)) fun _ =>
        .ite (.throw (touches_steps p) e) (.pure (touches_steps p) _)

theorem createFile_touches (data : List UInt8) : Along (Touches p) (createFile env p data) :=
  .bind (touches_steps p) (mkdirs_touches (List.tail_suffix p)) fun _ => fun t =>
    (writeBytes_rewrote data t).touches (Or.inl rfl)

theorem AppleDouble.write_touches (ad : AppleDouble) :
    Along (Touches p) (AppleDouble.write env ad (sidecar p)) :=
  .bind (touches_steps p) (.mapError _ (mkdirs_touches (List.tail_suffix p))) fun _ =>
    .bind (touches_steps p) (.ofExcept (touches_steps p) _) fun output =>
      .mapError _ fun t => (writeBytes_rewrote output t).touches (Or.inr rfl)

theorem AppleDouble.read_touches : Along (Touches p) (AppleDouble.read env (sidecar p)) :=
  .of_wp fun t => wp_mono (AppleDouble.read_spec _) (fun _ _ h => h ▸ (touches_steps p).refl t)
    fun _ _ h => h ▸ (touches_steps p).refl t

theorem writeSidecarEntry_touches (entryId : Nat) (data : List UInt8) :
    Along (Touches p) (writeSidecarEntry env p entryId data) := by
  refine .bind (touches_steps p) (.get (touches_steps p)) fun t => .ite ?_ ?_
  · exact .bind (touches_steps p) AppleDouble.read_touches fun _ => AppleDouble.write_touches _
  · exact AppleDouble.write_touches _

theorem osSetxattr_touches (name : XattrName) (value : List UInt8) :
    Along (Touches p) (osSetxattr env p name value) := by
  refine .of_wp fun t => ?_
  rw [osSetxattr, wp_bind, wp_get]
  split
  · intro q hq _ _
    rw [DirTree.look_setAttrs, if_neg hq]
  · exact (touches_steps p).refl t

theorem storeFinderInfo_touches (data : List UInt8) :
    Along (Touches p) (storeFinderInfo env p data) :=
  .bind (touches_steps p) (.mapError _ (osSetxattr_touches .finderInfo data)) fun _ =>
    .ite (.pure (touches_steps p) _) (writeSidecarEntry_touches 9 data)

/-! ## What is stored -/

/-- An entry with the attributes that are read at its path. -/
theorem putEntry_xattr {t : Tree} {e : HostEntry}
    (h : ∀ name, e.attrs.get? name = t.xattr p name) :
    wp (putEntry p e) (fun _ t' => t'.xattr = t.xattr) (fun _ t' => t'.xattr = t.xattr) t := by
  rw [putEntry, wp_bind, wp_get]
  split
  · show Tree.xattr _ = Tree.xattr t
    funext q name
    rw [Tree.xattr, DirTree.look_put]
    by_cases hq : q = p
    · rw [if_pos hq, hq]
      exact h name
    · rw [if_neg hq]
      rfl
  · split <;> rfl

/-- A new entry where there is none. -/
theorem putEntry_new_xattr {t : Tree} {content : Option (List UInt8)} (h : t.look p = none) :
    wp (putEntry p ⟨.empty, content⟩) (fun _ t' => t'.xattr = t.xattr)
      (fun _ t' => t'.xattr = t.xattr) t :=
  putEntry_xattr fun name => by
    rw [Tree.xattr, h]
    rfl

/-- Other content for an entry that is there. -/
theorem putEntry_old_xattr {t : Tree} {e : HostEntry} (content : Option (List UInt8))
    (h : t.look p = some e) :
    wp (putEntry p { e with content := content }) (fun _ t' => t'.xattr = t.xattr)
      (fun _ t' => t'.xattr = t.xattr) t :=
  putEntry_xattr fun name => by
    rw [Tree.xattr, h]
    rfl

theorem refuse_xattr (call : HostCall) :
    Along (fun t t' : Tree => t'.xattr = t.xattr) (refuse env call) :=
  .of_wp fun _ => refuse_spec call rfl fun _ => rfl

theorem osMkdir_xattr : Along (fun t t' : Tree => t'.xattr = t.xattr) (osMkdir env p) := by
  refine .bind (.same Tree.xattr) (refuse_xattr _) fun _ => .of_wp fun t => ?_
  rw [wp_bind, wp_get]
  split
  · rfl
  · rename_i hnew
    exact putEntry_new_xattr (Option.not_isSome_iff_eq_none.mp hnew)

theorem mkdirOne_xattr : Along (fun t t' : Tree => t'.xattr = t.xattr) (mkdirOne env p) :=
  .tryCatch (.same Tree.xattr) osMkdir_xattr fun e =>
    .bind (.same Tree.xattr) (.get (.same Tree.xattr)) fun _ =>
      .ite (.throw (.same Tree.xattr) e) (.pure (.same Tree.xattr) _)

theorem mkdirs_xattr (d : Path) : Along (fun t t' : Tree => t'.xattr = t.xattr) (mkdirs env d) := by
  induction d with
  | nil => exact mkdirOne_xattr
  | cons n d ih =>
    refine .tryCatch (.same Tree.xattr) osMkdir_xattr fun e => .ite ?_ ?_
    · exact .bind (.same Tree.xattr) ih fun _ => mkdirOne_xattr
    · exact .bind (.same Tree.xattr) (.get (.same Tree.xattr)) fun _ =>
        .ite (.throw (.same Tree.xattr) e) (.pure (.same Tree.xattr) _)

theorem storeContent_xattr (data : List UInt8) :
    Along (fun t t' : Tree => t'.xattr = t.xattr) (storeContent p data) := by
  refine .of_wp fun t => ?_
  rw [storeContent, wp_bind, wp_get]
  cases hlook : t.look p with
  | some e => exact putEntry_old_xattr _ hlook
  | none => rfl

theorem openWrite_xattr : Along (fun t t' : Tree => t'.xattr = t.xattr) (openWrite env p) := by
  refine .bind (.same Tree.xattr) (refuse_xattr _) fun _ => .of_wp fun t => ?_
  rw [wp_bind, wp_get]
  cases hlook : t.look p with
  | some e => exact putEntry_old_xattr _ hlook
  | none => exact putEntry_new_xattr hlook

/-- **Writing a file** keeps the native attributes of all files. -/
theorem writeBytes_xattr (data : List UInt8) :
    Along (fun t t' : Tree => t'.xattr = t.xattr) (writeBytes env p data) := by
  refine .bind (.same Tree.xattr) openWrite_xattr fun _ =>
    .bind (.same Tree.xattr) (.get (.same Tree.xattr)) fun t => ?_
  cases env.deny t (.write p data) with
  | none => exact storeContent_xattr data
  | some e =>
    exact .bind (.same Tree.xattr) (storeContent_xattr _) fun _ => .throw (.same Tree.xattr) e

/-! ## The Finder info -/

/-- Writing a container into a directory that is there, whether or not the host breaks off. -/
theorem AppleDouble.write_kept {t : Tree} (ad : AppleDouble) (hdir : t.has p.tail = true) :
    wp (AppleDouble.write env ad p)
      (fun _ t' => AppleDouble.held t' p = some ad ∧ t'.has p = true ∧
        ∀ q, q ≠ p → t'.look q = t.look q)
      (fun _ _ => True) t := by
  simp only [AppleDouble.write, wp_bind, wp_mapError]
  refine wp_mono (mkdirs_present hdir) (fun _ t₁ h₁ => ?_) fun _ _ _ => trivial
  subst h₁
  refine wp_ofExcept (fun output hpack => ?_) fun _ _ => trivial
  refine wp_mono AppleDouble.writeBytes_content (fun _ t' h => ?_) fun _ _ _ => trivial
  obtain ⟨attrs, hlook⟩ := h.content
  refine ⟨?_, DirTree.has_iff.mpr ⟨_, hlook⟩, fun q hq => h.others hq⟩
  simp only [AppleDouble.held, hlook, Option.bind_some, AppleDouble.parse_pack hpack,
    Except.toOption]

theorem writeSidecarEntry_kept {t : Tree} (h : IsFile t p) (name : XattrName)
    (value : List UInt8) :
    wp (writeSidecarEntry env p name.entryId value)
      (fun _ t' => Wrote t t' p false name value) (fun _ _ => True) t := by
  have hstore : ∀ ad : AppleDouble, sidecarEntries t p = some ad.entries →
      wp (AppleDouble.write env ⟨ad.entries.set name.entryId value⟩ (sidecar p))
        (fun _ t' => Wrote t t' p false name value) (fun _ _ => True) t := by
    intro ad hold
    refine wp_mono (AppleDouble.write_kept _ h.has_parent) (fun _ t' ht => ?_) fun _ _ ht => ht
    obtain ⟨hheld, hhas, hothers⟩ := ht
    refine wrote_sidecar h (hothers _ (host_ne_sidecar h)) hold ?_
    simp only [sidecarEntries, hhas, if_true, hheld, Option.map_some]
  simp only [writeSidecarEntry, wp_bind, wp_get]
  split
  · rename_i hhas
    rw [wp_bind]
    refine wp_mono (AppleDouble.read_held _) (fun ad t' had => ?_) fun _ _ _ => trivial
    obtain ⟨rfl, had⟩ := had
    exact hstore ad (by simp only [sidecarEntries, hhas, if_true, had, Option.map_some])
  · rename_i hhas
    exact hstore .new (by
      rw [sidecarEntries, if_neg hhas]
      rfl)

/-- **`set_finder_info`, when it returns**, has written to one of the tiers, whatever the host
does. -/
theorem storeFinderInfo_kept {t : Tree} (h : IsFile t p) (data : List UInt8) :
    wp (storeFinderInfo env p data)
      (fun _ t' => ∃ native, Wrote t t' p native .finderInfo data) (fun _ _ => True) t := by
  simp only [storeFinderInfo, wp_bind, wp_mapError]
  refine wp_mono (osSetxattr_wrote h .finderInfo data) (fun native t' hn => ?_) fun _ _ h => h.elim
  cases native with
  | true => exact ⟨true, hn.2⟩
  | false =>
    obtain ⟨-, rfl⟩ := hn
    exact wp_mono (writeSidecarEntry_kept h .finderInfo data) (fun _ _ hw => ⟨false, hw⟩)
      fun _ _ h => h

end Host

/-! ## The calls on the node -/

section Calls

variable {env : HostEnv} {n : Node} {w : World}

theorem onTree_touches {α : Type} {x : EStateM Exc Tree α} {p : Path} (h : Along (Touches p) x) :
    Along (fun w w' : World => Touches p w.tree w'.tree) (onTree x) :=
  .part (fun _ _ h => h) h

theorem worldTouches_steps (p : Path) : Steps fun w w' : World => Touches p w.tree w'.tree where
  refl w := (touches_steps p).refl w.tree
  trans h h' := (touches_steps p).trans h h'

/-- Work of the VFS leaves the tree alone. -/
theorem onVfs_touches {α : Type} (x : HostView → VfsM α) (p : Path) :
    Along (fun w w' : World => Touches p w.tree w'.tree) (onVfs env x) :=
  .bind (worldTouches_steps p) (.get (worldTouches_steps p)) fun _ =>
    .zoom fun w _ => (touches_steps p).refl w.tree

theorem writeDataFork_touches (data : List UInt8) :
    Along (fun w w' : World => Touches n.host w.tree w'.tree) (writeDataFork env n data) :=
  .bind (worldTouches_steps n.host) (onTree_touches (.mapError _ (createFile_touches data)))
    fun _ => onVfs_touches _ n.host

theorem setTypeCreator_touches (fileType creator : Signature) :
    Along (fun w w' : World => Touches n.host w.tree w'.tree)
      (setTypeCreator env n fileType creator) := by
  have hinfo : Along (fun w w' : World => Touches n.host w.tree w'.tree) (finderInfo env n) :=
    onTree_touches (.of_wp fun t => wp_mono loadFinderInfo_spec
      (fun _ _ h => h.1 ▸ (touches_steps n.host).refl t)
      fun _ _ h => h.1 ▸ (touches_steps n.host).refl t)
  refine .bind (worldTouches_steps n.host) (.ofExcept (worldTouches_steps n.host) _) fun _ =>
    .bind (worldTouches_steps n.host) (.ofExcept (worldTouches_steps n.host) _) fun _ =>
      .ite (.throw (worldTouches_steps n.host) _) ?_
  refine .bind (worldTouches_steps n.host) hinfo fun _ => ?_
  rw [setFinderInfo]
  refine .ite (.throw (worldTouches_steps n.host) _) ?_
  exact .bind (worldTouches_steps n.host) (onTree_touches (storeFinderInfo_touches _))
    fun _ => onVfs_touches _ n.host

/-- **Writing the data fork, when it returns**, has stored the data in a file. -/
theorem writeDataFork_kept (data : List UInt8) :
    wp (writeDataFork env n data)
      (fun _ w' => w'.tree.xattr = w.tree.xattr ∧ IsFile w'.tree n.host ∧
        w'.tree.content n.host = some data)
      (fun _ _ => True) w := by
  simp only [writeDataFork, createFile, onTree, onVfs, invalidatePath, wp_bind, wp_zoom, wp_get,
    wp_modify, wp_mapError]
  refine wp_mono ((mkdirs_xattr n.host.tail).wp w.tree) (fun _ t₁ h₁ => ?_) fun _ _ _ => trivial
  refine wp_mono (wp_and AppleDouble.writeBytes_content ((writeBytes_xattr data).wp t₁))
    (fun _ t' h => ?_) fun _ _ _ => trivial
  obtain ⟨hstored, hxattr⟩ := h
  obtain ⟨attrs, hlook⟩ := hstored.content
  refine ⟨hxattr.trans h₁, ⟨DirTree.has_iff.mpr ⟨_, hlook⟩, ?_⟩, ?_⟩
  · rw [DirTree.isDir, hlook]
    rfl
  · rw [Tree.content, hlook]
    rfl

/-- `set_type_creator`, when it returns, has written Finder info that it has retyped. -/
theorem setTypeCreator_kept (h : IsFile w.tree n.host) (fileType creator : Signature) :
    wp (setTypeCreator env n fileType creator)
      (fun _ w' => ∃ native info, (retyped fileType creator info).length = 32 ∧
        Wrote w.tree w'.tree n.host native .finderInfo (retyped fileType creator info))
      (fun _ _ => True) w := by
  rw [setTypeCreator, wp_bind]
  refine wp_ofExcept (fun rawType hType => ?_) fun _ _ => trivial
  rw [wp_bind]
  refine wp_ofExcept (fun rawCreator hCreator => ?_) fun _ _ => trivial
  split
  · trivial
  · rename_i hlen
    rw [wp_bind]
    refine wp_mono finderInfo_spec (fun info w' hinfo => ?_) fun _ _ _ => trivial
    obtain ⟨rfl, -⟩ := hinfo
    have heq : retype rawType rawCreator info = retyped fileType creator info := by
      rw [retype_eq _ _ (not_not.mp (not_or.mp hlen).1), retyped, hType, hCreator]
      rfl
    rw [heq, setFinderInfo]
    split
    · trivial
    · rename_i hsize
      simp only [onTree, onVfs, invalidatePath, wp_bind, wp_zoom, wp_get, wp_modify]
      refine wp_mono (storeFinderInfo_kept h _) (fun _ _ hw => ?_) fun _ _ h => h
      obtain ⟨native, hw⟩ := hw
      exact ⟨native, info, not_not.mp hsize, hw⟩

end Calls

/-! ## The output file -/

/-- `b"XCOF"`. -/
def xcof : List UInt8 := [0x58, 0x43, 0x4F, 0x46]

/-- `b"MPS "`. -/
def mps : List UInt8 := [0x4D, 0x50, 0x53, 0x20]

/-- `Node.type_creator`. -/
def typeCreator (env : HostEnv) (n : Node) : WorldM (List UInt8 × List UInt8) := do
  let info ← finderInfo env n
  return (slice info 0 4, slice info 4 8)

/-- `_write_output`, with the VFS that is made for it. -/
def writeOutput (env : HostEnv) (ident : Nat) (buildRoot output : Path) (data : List UInt8)
    (preprocess : Bool) : WorldM Unit := do
  modify fun w => .start w.tree w.registry.nodeById ident buildRoot
  onTree (mapError (fun e => .osError e.text) (mkdirs env output.tail))
  let n ← onVfs env (node · output)
  writeDataFork env n data
  if preprocess then pure () else setTypeCreator env n (.bytes xcof) (.bytes mps)

/-- The Finder info of the file is that of an MPW object: the native value, or the one of the
sidecar where the native value is still `held`. -/
def Typed (held : Option (List UInt8)) (t : Tree) (p : Path) : Prop :=
  ∃ info : List UInt8, info.length = 32 ∧ slice info 0 4 = xcof ∧ slice info 4 8 = mps ∧
    ((tiers t p).front .finderInfo = some info ∨
      (tiers t p).front .finderInfo = held ∧ (tiers t p).back .finderInfo = some info)

/-- What the output file is once it is written. -/
structure Output (t t' : Tree) (p : Path) (data : List UInt8) (preprocess : Bool) : Prop where
  file : IsFile t' p
  content : t'.content p = some data
  typed : preprocess = false → Typed ((tiers t p).front .finderInfo) t' p

section Results

variable {env : HostEnv} {w : World} {ident : Nat} {buildRoot output : Path} {data : List UInt8}
  {preprocess : Bool}

theorem typed_of_wrote {t t' : Tree} {p : Path} {native : Bool} {info : List UInt8}
    (hlen : (retyped (.bytes xcof) (.bytes mps) info).length = 32)
    (h : Wrote t t' p native .finderInfo (retyped (.bytes xcof) (.bytes mps) info)) :
    Typed ((tiers t p).front .finderInfo) t' p := by
  have hreading : XattrName.finderInfo.reading (retyped (.bytes xcof) (.bytes mps) info) =
      retyped (.bytes xcof) (.bytes mps) info := padFinderInfo_of_length hlen
  refine ⟨_, hlen, rfl, rfl, ?_⟩
  rw [h.tiers, hreading]
  cases native with
  | true => exact Or.inl (by simp [Tiers.write])
  | false => exact Or.inr (by simp [Tiers.write])

/-- **`_write_output` writes the output file**: when it returns the file holds the data and, for an
object, the type and the creator; however it ends, it has touched the file and its sidecar, and made
directories on the way, and nothing else. -/
theorem writeOutput_spec :
    wp (writeOutput env ident buildRoot output data preprocess)
      (fun _ w' => Touches output w.tree w'.tree ∧
        Output w.tree w'.tree output data preprocess)
      (fun _ w' => Touches output w.tree w'.tree) w := by
  rw [writeOutput, wp_bind, wp_modify, wp_bind, onTree, wp_zoom, wp_mapError]
  refine wp_mono (wp_and ((mkdirs_touches (List.tail_suffix output)).wp w.tree)
    ((mkdirs_xattr output.tail).wp w.tree)) (fun _ t₁ h₁ => ?_) fun _ _ h => h.1
  obtain ⟨htouch₁, hxattr₁⟩ := h₁
  rw [wp_bind, onVfs, wp_bind, wp_get, wp_zoom]
  refine wp_mono (node_spec (init_spec id _ ident buildRoot).2 output) (fun n s hn => ?_)
    fun _ _ h => h.elim
  obtain ⟨-, hhost, -⟩ := hn
  obtain rfl : n.host = output := hhost
  rw [wp_bind]
  refine wp_mono (wp_and ((writeDataFork_touches data).wp _) (writeDataFork_kept data))
    (fun _ w₂ h₂ => ?_) fun _ _ h => (touches_steps n.host).trans htouch₁ h.1
  obtain ⟨htouch₂, hxattr₂, hfile, hcontent⟩ := h₂
  have htouch := (touches_steps n.host).trans htouch₁ htouch₂
  cases preprocess with
  | true => exact ⟨htouch, hfile, hcontent, fun h => by cases h⟩
  | false =>
    rw [if_neg Bool.false_ne_true]
    refine wp_mono (wp_and ((setTypeCreator_touches _ _).wp w₂)
      (wp_and (setTypeCreator_kept hfile _ _)
        (forkCall_sameData hfile (.setTypeCreator (.bytes xcof) (.bytes mps)))))
      (fun _ w₃ h₃ => ?_) fun _ _ h => (touches_steps n.host).trans htouch h.1
    obtain ⟨htouch₃, ⟨native, info, hlen, hwrote⟩, hsame⟩ := h₃
    refine ⟨(touches_steps n.host).trans htouch htouch₃, hsame.file,
      hsame.content.trans hcontent, fun _ => ?_⟩
    have hfront : (tiers w₂.tree n.host).front .finderInfo =
        (tiers w.tree n.host).front .finderInfo := by
      show (w₂.tree.xattr n.host .finderInfo).map _ = (w.tree.xattr n.host .finderInfo).map _
      rw [hxattr₂, show t₁.xattr = w.tree.xattr from hxattr₁]
    rw [← hfront]
    exact typed_of_wrote hlen hwrote

/-- A file that had no native Finder info is an MPW object to whoever asks the native store. -/
theorem Typed.typeCreator {n : Node} (h : Typed none w.tree n.host)
    (hanswers : answers env w.tree n.host .finderInfo = true) (hfb : Fallback env n.host) :
    typeCreator env n w = .ok (xcof, mps) w := by
  obtain ⟨info, -, htype, hcreator, hinfo⟩ := h
  have hread : (tiers w.tree n.host).read true .finderInfo = some info := by
    rcases hinfo with hfront | ⟨hfront, hback⟩
    · rw [Tiers.read, if_pos rfl, hfront]
      rfl
    · rw [Tiers.read, if_pos rfl, hfront, hback]
      rfl
  have hok : finderInfo env n w = .ok info w :=
    (finderInfo_reader hfb).ok_iff.mpr (by rw [hanswers, hread])
  rw [Vfs.typeCreator, bind_of_ok hok, htype, hcreator]
  rfl

/-- What a reader of the output file finds. -/
structure ReadBack (env : HostEnv) (t : Tree) (w : World) (n : Node) (data : List UInt8)
    (preprocess : Bool) : Prop where
  dataFork : env.deny w.tree (.read n.host) = none → Carbon.dataFork env n w = .ok data w
  typeCreator : preprocess = false → t.xattr n.host .finderInfo = none →
    answers env w.tree n.host .finderInfo = true → Fallback env n.host →
    Vfs.typeCreator env n w = .ok (xcof, mps) w

theorem Output.readBack {n : Node} {t : Tree} (h : Output t w.tree n.host data preprocess)
    (reader : HostEnv) : ReadBack reader t w n data preprocess := by
  refine ⟨dataFork_of_content h.content, fun hobject hnew hanswers hfb => ?_⟩
  have hfront : (tiers t n.host).front .finderInfo = none :=
    congrArg (Option.map XattrName.finderInfo.reading) hnew
  have htyped := h.typed hobject
  rw [hfront] at htyped
  exact htyped.typeCreator hanswers hfb

/-- **The output file is read back**: through any node of its path the data fork is the data, and an
object that had no native Finder info has the type and the creator of MPW objects. However the
writing ends, nothing but the file, its sidecar and the directories on the way is touched. -/
theorem writeOutput_readBack :
    wp (writeOutput env ident buildRoot output data preprocess)
      (fun _ w' => Touches output w.tree w'.tree ∧ ∀ (reader : HostEnv) (n : Node),
        n.host = output → ReadBack reader w.tree w' n data preprocess)
      (fun _ w' => Touches output w.tree w'.tree) w := by
  refine wp_mono writeOutput_spec (fun _ w' h => ⟨h.1, fun reader n hn => ?_⟩) fun _ _ h => h
  subst hn
  exact h.2.readBack reader

end Results

end Cwhost.Vfs
