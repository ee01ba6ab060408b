import Cwhost.Errors
import Cwhost.Lib.Dict
import Cwhost.Lib.DirTree
import Cwhost.Lib.Outcome
import Mathlib.Data.Char
import Mathlib.Data.List.Lex
import Mathlib.Data.List.Sort
import Mathlib.Data.Prod.Lex

/-!
# The host file system

What `vfs.py` and `appledouble.py` ask of `pathlib` and `os`. A canonical absolute host path is
the list of its names from the innermost outwards. Every call can be refused by the host for a
reason of its own (permissions, a full disk, a name that is too long): `HostEnv.deny` answers for
each call and each state of the tree.

* `HostView`: what the reading half of the VFS sees of the host.
* `osMkdir`, `openWrite`, `osUnlink`, `osRmdir`, `osRename`: the system calls that change the tree.
* `mkdirs`, `writeBytes`: `Path.mkdir(parents=True, exist_ok=True)` and `Path.write_bytes`.
* `createFile_spec`, `removeEntry_spec`, `osRename_spec`: what they do to the set of entries.

Source: the calls of `pathlib` and `os` in `vfs.py`, `appledouble.py`, `config.py` and
`cli/cwcc.py`.

Premises: `HostView` is a host that does not change while it is looked at, with symbolic links as
`resolve` follows them; `Tree` is a host without links, which the writing half changes. A refused
write may have stored a part (`HostEnv.short`).

Out of scope: paths that cannot be resolved or stat'ed. `Path.resolve` raises a `RuntimeError` on a
loop of symbolic links, and `Path.is_dir` a `PermissionError` below a directory that can be listed
and not searched; both escape the callers. `resolve` and `isDir` answer for every path, so the
results hold of hosts on which they do. Also other processes that change the tree between two calls.
-/

namespace Cwhost.Vfs

open Lib

/-- A canonical absolute path, its names from the innermost outwards. -/
abbrev Path := List Str

/-- `str(path)`. -/
def pathText : Path → Str
  | [] => ['/']
  | p => p.reverse.flatMap fun name => '/' :: name

/-- An `OSError`: its number, and `str(error)`. -/
structure OsError where
  errno : Nat
  text : String
  deriving DecidableEq, Repr

/-- The error number `errno` with its text, for `path`. -/
def osError (errno : Nat) (strerror : String) (path : Path) : OsError :=
  ⟨errno, s!"[Errno {errno}] {strerror}: {pyRepr (pathText path)}"⟩

/-- `FileNotFoundError`. -/
def OsError.isNotFound (e : OsError) : Bool := e.errno = 2

/-- `FileNotFoundError`, for a path. -/
def noEntry : Path → OsError := osError 2 "No such file or directory"

/-- The target of a system call is in use. -/
def busy : Path → OsError := osError 16 "Device or resource busy"

/-- `FileExistsError`. -/
def fileExists : Path → OsError := osError 17 "File exists"

/-- `NotADirectoryError`. -/
def notDirectory : Path → OsError := osError 20 "Not a directory"

/-- `IsADirectoryError`. -/
def isDirectory : Path → OsError := osError 21 "Is a directory"

/-- A directory cannot be moved into itself. -/
def invalidArgument : Path → OsError := osError 22 "Invalid argument"

/-- The directory still has entries. -/
def notEmpty : Path → OsError := osError 39 "Directory not empty"

/-- The native attributes that hold a fork or the Finder data. -/
inductive XattrName
  /-- `com.apple.ResourceFork`. -/
  | resourceFork
  /-- `com.apple.FinderInfo`. -/
  | finderInfo
  deriving DecidableEq, Repr

/-- A file or directory of the host, with its native attributes. -/
abbrev HostEntry := Entry (Dict XattrName (List UInt8)) (List UInt8)

/-- The directory tree of the host, without symbolic links. -/
abbrev Tree := DirTree Str (Dict XattrName (List UInt8)) (List UInt8)

/-- A call to the host. -/
inductive HostCall
  | mkdir (path : Path)
  | openWrite (path : Path)
  | write (path : Path) (data : List UInt8)
  | read (path : Path)
  | unlink (path : Path)
  | rmdir (path : Path)
  | rename (src dst : Path)
  | listdir (path : Path)
  | setxattr (path : Path) (name : XattrName) (value : List UInt8)
  | getxattr (path : Path) (name : XattrName)
  deriving DecidableEq, Repr

/-- What the host answers besides what the tree determines. -/
structure HostEnv where
  /-- The error a call is refused with. -/
  deny : Tree → HostCall → Option OsError
  /-- How many bytes a refused write has stored. -/
  short : Tree → HostCall → Nat

/-- What the reading half of the VFS sees of the host: **a host on which every path can be resolved
and stat'ed**. Directories that cannot be listed are errors of `listdir`. -/
structure HostView where
  /-- `Path(path).expanduser().resolve()`, which raises on a loop of links: there is none. -/
  resolve : Path → Path
  /-- `path.is_dir()`, which raises below a directory that cannot be searched: there is none. -/
  isDir : Path → Bool
  /-- The names `path.iterdir()` yields. -/
  listdir : Path → Except OsError (List Str)

/-- The sort key of a listing is `(name.casefold(), name)`. -/
def nameLe (fold : Str → Str) (a b : Str) : Prop := toLex (fold a, a) ≤ toLex (fold b, b)

instance (fold : Str → Str) : DecidableRel (nameLe fold) := fun a b =>
  inferInstanceAs (Decidable (toLex (fold a, a) ≤ toLex (fold b, b)))

/-- `sorted(…, key=lambda path: (path.name.casefold(), path.name))`, over names. -/
def sortedNames (fold : Str → Str) (names : List Str) : List Str :=
  names.insertionSort (nameLe fold)

/-! ## System calls -/

/-- A computation of the host on its tree. -/
abbrev OsM := EStateM OsError Tree

variable (env : HostEnv)

/-- The host may refuse the call. -/
def refuse (call : HostCall) : OsM Unit := do
  match env.deny (← get) call with
  | some e => throw e
  | none => pure ()

/-- Why there is no entry at `p`: a file stands on the way, or nothing does. -/
def walkError (t : Tree) (path : Path) : Path → OsError
  | [] => noEntry path
  | n :: d =>
    if t.has (n :: d) then
      if t.isDir (n :: d) then noEntry path else notDirectory path
    else walkError t path d

/-- A new directory. -/
def newDir : HostEntry := ⟨.empty, none⟩

/-- A file without attributes. -/
def newFile (data : List UInt8) : HostEntry := ⟨.empty, some data⟩

instance (t : Tree) (p : Path) (e : HostEntry) : Decidable (t.CanPut p e) :=
  decidable_of_iff (p ≠ [] ∧ t.isDir p.tail = true ∧ (t.isDir p = true → e.isDir = true))
    ⟨fun h => ⟨h.1, h.2.1, h.2.2⟩, fun h => ⟨h.ne_root, h.dir, h.kind⟩⟩

instance (t : Tree) (src dst : Path) : Decidable (t.CanMove src dst) :=
  decidable_of_iff
    (t.has src = true ∧ t.isDir dst.tail = true ∧ ¬ src <:+ dst ∧ t.names dst = [])
    ⟨fun h => ⟨h.1, h.2.1, h.2.2.1, h.2.2.2⟩, fun h => ⟨h.has_src, h.dir, h.not_below, h.empty⟩⟩

/-- Write the entry `e` at `p`. -/
def putEntry (p : Path) (e : HostEntry) : OsM Unit := do
  let t ← get
  if h : t.CanPut p e then set (t.put p e h)
  else if t.isDir p then throw (isDirectory p)
  else throw (walkError t p p)

/-- `os.mkdir`. -/
def osMkdir (p : Path) : OsM Unit := do
  refuse env (.mkdir p)
  if (← get).has p then throw (fileExists p) else putEntry p newDir

/-- `open(path, "wb")`: a new file, or the old one emptied. -/
def openWrite (p : Path) : OsM Unit := do
  refuse env (.openWrite p)
  match (← get).look p with
  | some e => putEntry p { e with content := some [] }
  | none => putEntry p (newFile [])

/-- Put `data` into the file at `p`. -/
def storeContent (p : Path) (data : List UInt8) : OsM Unit := do
  match (← get).look p with
  | some e => putEntry p { e with content := some data }
  | none => throw (noEntry p)

/-- Writing to the file just opened. A refused write has stored part of the data. -/
def writeOpen (p : Path) (data : List UInt8) : OsM Unit := do
  let t ← get
  match env.deny t (.write p data) with
  | some e => do
    storeContent p (data.take (env.short t (.write p data)))
    throw e
  | none => storeContent p data

/-- `Path.write_bytes`. -/
def writeBytes (p : Path) (data : List UInt8) : OsM Unit := do
  openWrite env p
  writeOpen env p data

/-- `Path.read_bytes`. -/
def readBytes (p : Path) : OsM (List UInt8) := do
  refuse env (.read p)
  let t ← get
  match t.look p with
  | some ⟨_, some data⟩ => pure data
  | some ⟨_, none⟩ => throw (isDirectory p)
  | none => throw (walkError t p p)

/-- Remove the entry at `p`. -/
def removeEntry (p : Path) : OsM Unit := do
  let t ← get
  if h : p ≠ [] ∧ t.names p = [] then set (t.remove p h.1 h.2) else throw (notEmpty p)

/-- `os.unlink`. -/
def osUnlink (p : Path) : OsM Unit := do
  refuse env (.unlink p)
  let t ← get
  if t.isDir p then throw (isDirectory p)
  else if t.has p then removeEntry p
  else throw (walkError t p p)

/-- `os.rmdir`. -/
def osRmdir (p : Path) : OsM Unit := do
  refuse env (.rmdir p)
  let t ← get
  if p = [] then throw (busy p)
  else if t.isDir p then removeEntry p
  else if t.has p then throw (notDirectory p)
  else throw (walkError t p p)

/-- `os.rename`: the old entry replaces the new one, which may be a file for a file and an empty
directory for a directory. -/
def osRename (src dst : Path) : OsM Unit := do
  refuse env (.rename src dst)
  let t ← get
  if ¬ t.has src then throw (walkError t src src)
  else if src = dst then pure ()
  else if src = [] ∨ dst = [] then throw (busy src)
  else if ¬ t.isDir dst.tail then throw (walkError t dst dst.tail)
  else if src <:+ dst then throw (invalidArgument src)
  else if t.has dst ∧ t.isDir dst ∧ ¬ t.isDir src then throw (isDirectory src)
  else if t.has dst ∧ ¬ t.isDir dst ∧ t.isDir src then throw (notDirectory src)
  else if h : t.CanMove src dst then set (t.move src dst h)
  else throw (notEmpty src)

/-- `os.setxattr`, and whether the attribute was stored. -/
def osSetxattr (p : Path) (name : XattrName) (value : List UInt8) : OsM Bool := do
  let t ← get
  if t.has p ∧ env.deny t (.setxattr p name value) = none then do
    set (t.setAttrs p fun attrs => attrs.set name value)
    return true
  else return false

/-- The native attribute of the entry at `p`. -/
def Tree.xattr (t : Tree) (p : Path) (name : XattrName) : Option (List UInt8) :=
  (t.look p).bind fun e => e.attrs.get? name

/-- `os.getxattr`, or nothing. -/
def osGetxattr (p : Path) (name : XattrName) : OsM (Option (List UInt8)) := do
  let t ← get
  if env.deny t (.getxattr p name) = none then return t.xattr p name else return none

/-- The names of a directory. -/
def Tree.listdir (t : Tree) (p : Path) : Except OsError (List Str) :=
  if t.isDir p then .ok (t.names p)
  else if t.has p then .error (notDirectory p)
  else .error (walkError t p p)

/-- A tree as the reading half of the VFS sees it. -/
def Tree.view (t : Tree) : HostView where
  resolve := id
  isDir := t.isDir
  listdir p :=
    match env.deny t (.listdir p) with
    | some e => .error e
    | none => t.listdir p

theorem Tree.view_listdir_eq {env : HostEnv} {t : Tree} {p : Path} (hd : t.isDir p = true)
    (h : env.deny t (.listdir p) = none) : (t.view env).listdir p = .ok (t.names p) := by
  show (match env.deny t (.listdir p) with
    | some e => Except.error e
    | none => t.listdir p) = _
  rw [h]
  exact if_pos hd

theorem Tree.view_listdir_ok {env : HostEnv} {t : Tree} {p : Path} {names : List Str}
    (hd : t.isDir p = true) (h : (t.view env).listdir p = .ok names) : names = t.names p := by
  cases hdeny : env.deny t (.listdir p) with
  | none =>
    rw [Tree.view_listdir_eq hd hdeny] at h
    exact (Except.ok.inj h).symm
  | some e =>
    change (match env.deny t (.listdir p) with
      | some e => Except.error e
      | none => t.listdir p) = _ at h
    rw [hdeny] at h
    cases h

/-- The sorted listing of `d`, empty when it is not a directory. -/
def listing (fold : Str → Str) (t : Tree) (d : Path) : List Path :=
  if t.isDir d then (sortedNames fold (t.names d)).map (· :: d) else []

theorem listing_eq (fold : Str → Str) (t : Tree) (d : Path) :
    listing fold t d = (sortedNames fold (t.names d)).map (· :: d) := by
  rw [listing]
  split
  · rfl
  · rename_i hd
    have hnil : t.names d = [] := DirTree.names_eq_nil_iff.mpr fun n => by
      refine Bool.eq_false_iff.mpr fun hn => hd ?_
      exact DirTree.isDir_of_has hn
    rw [hnil]
    rfl

/-! ## `pathlib` -/

/-- `p.mkdir(parents=False, exist_ok=True)`. -/
def mkdirOne (p : Path) : OsM Unit := do
  try osMkdir env p
  catch e =>
    if e.isNotFound = true ∨ ¬ (← get).isDir p = true then throw e

/-- `p.mkdir(parents=True, exist_ok=True)`. -/
def mkdirs : Path → OsM Unit
  | [] => mkdirOne env []
  | n :: d => do
    try osMkdir env (n :: d)
    catch e =>
      if e.isNotFound = true then do
        mkdirs d
        mkdirOne env (n :: d)
      else if ¬ (← get).isDir (n :: d) = true then throw e

/-- The parents of `p`, and `p` as a file. -/
def createFile (p : Path) (data : List UInt8) : OsM Unit := do
  mkdirs env p.tail
  writeBytes env p data

/-! ## What the calls do to the entries -/

/-- Entries were added, all of them at paths of `on`. -/
structure Grows (on : Path → Prop) (t t' : Tree) : Prop where
  keeps : ∀ {q}, t.has q = true → t'.has q = true
  new : ∀ {q}, t'.has q = true → t.has q = true ∨ on q

namespace Grows

variable {on on' : Path → Prop} {t t' t'' : Tree}

theorem refl (on : Path → Prop) (t : Tree) : Grows on t t := ⟨id, Or.inl⟩

theorem trans (h : Grows on t t') (h' : Grows on t' t'') : Grows on t t'' where
  keeps hq := h'.keeps (h.keeps hq)
  new hq := (h'.new hq).elim h.new Or.inr

theorem mono (h : Grows on t t') (hon : ∀ q, on q → on' q) : Grows on' t t' where
  keeps := h.keeps
  new hq := (h.new hq).imp_right (hon _)

/-- The entries below a directory that got none are those it had. -/
theorem has_eq (h : Grows on t t') {q : Path} (hq : t.has q = false → t'.has q = true → False) :
    t'.has q = t.has q := by
  cases ht : t.has q with
  | true => exact h.keeps ht
  | false =>
    cases ht' : t'.has q with
    | false => rfl
    | true => exact (hq ht ht').elim

end Grows

/-- On the way to `p`. -/
def towards (p q : Path) : Prop := q <:+ p

variable {env}

theorem refuse_spec (call : HostCall) {Q : Unit → Tree → Prop} {E : OsError → Tree → Prop}
    {t : Tree} (hQ : Q () t) (hE : ∀ e, E e t) : wp (refuse env call) Q E t := by
  simp only [refuse, wp_bind, wp_get]
  cases env.deny t call with
  | none => exact hQ
  | some e => exact hE e

theorem putEntry_spec {t : Tree} (p : Path) (e : HostEntry) :
    wp (putEntry p e) (fun _ t' => Grows (· = p) t t') (fun _ t' => t' = t) t := by
  simp only [putEntry, wp_bind, wp_get]
  split
  · rename_i h
    refine ⟨fun hq => ?_, fun hq => ?_⟩
    · rw [DirTree.has_put, hq, Bool.or_true]
    · rw [DirTree.has_put, Bool.or_eq_true, decide_eq_true_eq] at hq
      exact hq.symm
  · split
    · rfl
    · rfl

/-- A call that fails without a change. -/
theorem grows_of {on : Path → Prop} {x : OsM Unit} {t : Tree}
    (h : wp x (fun _ t' => Grows on t t') (fun _ t' => t' = t) t) :
    wp x (fun _ t' => Grows on t t') (fun _ t' => Grows on t t') t :=
  wp_mono h (fun _ _ h => h) fun _ _ h => h ▸ Grows.refl on t

theorem osMkdir_spec {t : Tree} (p : Path) :
    wp (osMkdir env p) (fun _ t' => Grows (· = p) t t') (fun _ t' => t' = t) t := by
  simp only [osMkdir, wp_bind, wp_get]
  refine refuse_spec _ ?_ fun _ => rfl
  split
  · rfl
  · exact putEntry_spec p newDir

theorem openWrite_spec {t : Tree} (p : Path) :
    wp (openWrite env p) (fun _ t' => Grows (· = p) t t') (fun _ t' => t' = t) t := by
  simp only [openWrite, wp_bind, wp_get]
  refine refuse_spec _ ?_ fun _ => rfl
  split
  · exact putEntry_spec p _
  · exact putEntry_spec p _

theorem storeContent_spec {t : Tree} (p : Path) (data : List UInt8) :
    wp (storeContent p data) (fun _ t' => Grows (· = p) t t') (fun _ t' => t' = t) t := by
  simp only [storeContent, wp_bind, wp_get]
  split
  · exact putEntry_spec p _
  · rfl

theorem writeOpen_spec {t : Tree} (p : Path) (data : List UInt8) :
    wp (writeOpen env p data) (fun _ t' => Grows (· = p) t t') (fun _ t' => Grows (· = p) t t')
      t := by
  simp only [writeOpen, wp_bind, wp_get]
  split
  · rw [wp_bind]
    exact grows_of (storeContent_spec p _)
  · exact grows_of (storeContent_spec p data)

/-- Writing a file adds at most that file, also when it fails. -/
theorem writeBytes_spec {t : Tree} (p : Path) (data : List UInt8) :
    wp (writeBytes env p data) (fun _ t' => Grows (· = p) t t') (fun _ t' => Grows (· = p) t t')
      t := by
  simp only [writeBytes, wp_bind]
  refine wp_mono (grows_of (openWrite_spec p)) (fun _ t₁ h₁ => ?_) fun _ _ h => h
  exact wp_mono (writeOpen_spec p data) (fun _ _ h => h₁.trans h) fun _ _ h => h₁.trans h

theorem mkdirOne_spec {t : Tree} (p : Path) :
    wp (mkdirOne env p) (fun _ t' => Grows (· = p) t t') (fun _ t' => Grows (· = p) t t') t := by
  simp only [mkdirOne, wp_tryCatch, wp_bind, wp_get]
  refine wp_mono (osMkdir_spec p) (fun _ _ h => h) fun e t' h => ?_
  subst h
  split
  · exact Grows.refl _ _
  · exact Grows.refl _ _

/-- Making a directory and its parents adds entries on the way to it, also when it fails. -/
theorem mkdirs_spec {t : Tree} (p : Path) :
    wp (mkdirs env p) (fun _ t' => Grows (towards p) t t')
      (fun _ t' => Grows (towards p) t t') t := by
  induction p generalizing t with
  | nil =>
    have hself : ∀ q : Path, q = [] → towards [] q := fun q h => h ▸ List.suffix_refl q
    exact wp_mono (mkdirOne_spec []) (fun _ _ h => h.mono hself) fun _ _ h => h.mono hself
  | cons n d ih =>
    have hself : ∀ q, q = n :: d → towards (n :: d) q := fun q h => h ▸ List.suffix_refl q
    have hd : ∀ q, towards d q → towards (n :: d) q := fun _ h => h.trans (List.suffix_cons n d)
    simp only [mkdirs, wp_tryCatch]
    refine wp_mono (osMkdir_spec (n :: d)) (fun _ _ h => h.mono hself) fun e t' h => ?_
    subst h
    split
    · rw [wp_bind]
      refine wp_mono ih (fun _ t₁ h₁ => ?_) fun _ _ h => h.mono hd
      exact wp_mono (mkdirOne_spec (n :: d)) (fun _ _ h => (h₁.mono hd).trans (h.mono hself))
        fun _ _ h => (h₁.mono hd).trans (h.mono hself)
    · simp only [wp_bind, wp_get]
      split
      · exact Grows.refl _ _
      · exact Grows.refl _ _

/-- **Creating a file** adds entries on the way to it, also when it fails. -/
theorem createFile_spec {t : Tree} (p : Path) (data : List UInt8) :
    wp (createFile env p data) (fun _ t' => Grows (towards p) t t')
      (fun _ t' => Grows (towards p) t t') t := by
  have hself : ∀ q, q = p → towards p q := fun q h => h ▸ List.suffix_refl q
  have htail : ∀ q, towards p.tail q → towards p q := fun _ h => h.trans (List.tail_suffix p)
  simp only [createFile, wp_bind]
  refine wp_mono (mkdirs_spec p.tail) (fun _ t₁ h₁ => ?_) fun _ _ h => h.mono htail
  exact wp_mono (writeBytes_spec p data) (fun _ _ h => (h₁.mono htail).trans (h.mono hself))
    fun _ _ h => (h₁.mono htail).trans (h.mono hself)

/-- The entry at `p`, without children, is gone. -/
structure Removed (t t' : Tree) (p : Path) : Prop where
  has_eq : ∀ q, t'.has q = (decide (q ≠ p) && t.has q)

theorem removeEntry_spec {t : Tree} (p : Path) :
    wp (removeEntry p) (fun _ t' => Removed t t' p) (fun _ t' => t' = t) t := by
  simp only [removeEntry, wp_bind, wp_get]
  split
  · rename_i h
    exact ⟨DirTree.has_remove h.1 h.2⟩
  · rfl

theorem osUnlink_spec {t : Tree} (p : Path) :
    wp (osUnlink env p) (fun _ t' => Removed t t' p) (fun _ t' => t' = t) t := by
  simp only [osUnlink, wp_bind, wp_get]
  refine refuse_spec _ ?_ fun _ => rfl
  split
  · rfl
  · split
    · exact removeEntry_spec p
    · rfl

theorem osRmdir_spec {t : Tree} (p : Path) :
    wp (osRmdir env p) (fun _ t' => Removed t t' p) (fun _ t' => t' = t) t := by
  simp only [osRmdir, wp_bind, wp_get]
  refine refuse_spec _ ?_ fun _ => rfl
  split
  · rfl
  · split
    · exact removeEntry_spec p
    · split
      · rfl
      · rfl

/-- What was at and below `src` is at and below `dst`, where there was at most an entry without
children; or nothing has changed, `src` being `dst`. -/
inductive Renamed (t t' : Tree) (src dst : Path) : Prop
  | same : src = dst → t' = t → Renamed t t' src dst
  | moved (h : t.CanMove src dst) : t' = t.move src dst h → Renamed t t' src dst

theorem osRename_spec {t : Tree} (src dst : Path) :
    wp (osRename env src dst) (fun _ t' => Renamed t t' src dst) (fun _ t' => t' = t) t := by
  simp only [osRename, wp_bind, wp_get]
  refine refuse_spec _ ?_ fun _ => rfl
  split
  · rfl
  split
  · rename_i h
    exact .same h rfl
  split
  · rfl
  split
  · rfl
  split
  · rfl
  split
  · rfl
  split
  · rfl
  split
  · rename_i h
    exact .moved h rfl
  · rfl

theorem osSetxattr_spec {t : Tree} (p : Path) (name : XattrName) (value : List UInt8) :
    wp (osSetxattr env p name value) (fun _ t' => ∀ q, t'.has q = t.has q)
      (fun _ _ => False) t := by
  simp only [osSetxattr, wp_bind, wp_get]
  split
  · intro q
    exact DirTree.has_setAttrs t p _ q
  · intro q
    rfl

/-! ## What the calls do to the contents -/

/-- The file at `p` holds `data`, and nothing else has changed. -/
structure Stored (t t' : Tree) (p : Path) (data : List UInt8) : Prop where
  content : ∃ attrs, t'.look p = some ⟨attrs, some data⟩
  others : ∀ {q}, q ≠ p → t'.look q = t.look q

theorem Stored.trans {t t' t'' : Tree} {p : Path} {data data' : List UInt8}
    (h : Stored t t' p data) (h' : Stored t' t'' p data') : Stored t t'' p data' where
  content := h'.content
  others hq := (h'.others hq).trans (h.others hq)

theorem putEntry_stored {t : Tree} {p : Path} (attrs : Dict XattrName (List UInt8))
    (data : List UInt8) :
    wp (putEntry p ⟨attrs, some data⟩) (fun _ t' => p ≠ [] ∧ Stored t t' p data)
      (fun _ t' => t' = t) t := by
  simp only [putEntry, wp_bind, wp_get]
  split
  · rename_i h
    refine ⟨h.ne_root, ⟨attrs, ?_⟩, fun hq => ?_⟩
    · rw [DirTree.look_put, if_pos rfl]
    · rw [DirTree.look_put, if_neg hq]
  · split
    · rfl
    · rfl

theorem openWrite_stored {t : Tree} (p : Path) :
    wp (openWrite env p) (fun _ t' => p ≠ [] ∧ Stored t t' p []) (fun _ t' => t' = t) t := by
  simp only [openWrite, wp_bind, wp_get]
  refine refuse_spec _ ?_ fun _ => rfl
  split
  · exact putEntry_stored _ _
  · exact putEntry_stored _ _

/-- Writing to an open file, where the host does not break off. -/
theorem writeOpen_stored {t : Tree} {p : Path} {data old : List UInt8}
    {attrs : Dict XattrName (List UInt8)} (hp : p ≠ []) (hlook : t.look p = some ⟨attrs, some old⟩)
    (hdeny : env.deny t (.write p data) = none) :
    wp (writeOpen env p data) (fun _ t' => Stored t t' p data) (fun _ _ => False) t := by
  obtain ⟨n, d, rfl⟩ := List.exists_cons_of_ne_nil hp
  have hcan : t.CanPut (n :: d) ⟨attrs, some data⟩ := by
    refine ⟨hp, DirTree.isDir_of_has (DirTree.has_iff.mpr ⟨_, hlook⟩), fun hd => ?_⟩
    rw [DirTree.isDir, hlook] at hd
    cases hd
  simp only [writeOpen, wp_bind, wp_get, hdeny, storeContent, hlook, putEntry, dif_pos hcan]
  refine ⟨⟨attrs, ?_⟩, fun hq => ?_⟩
  · rw [DirTree.look_put, if_pos rfl]
  · rw [DirTree.look_put, if_neg hq]

/-- **Writing a file** stores the data or fails without a change, where the host does not break
off. -/
theorem writeBytes_stored {t : Tree} {p : Path} {data : List UInt8}
    (hdeny : ∀ t', env.deny t' (.write p data) = none) :
    wp (writeBytes env p data) (fun _ t' => Stored t t' p data) (fun _ t' => t' = t) t := by
  simp only [writeBytes, wp_bind]
  refine wp_mono (openWrite_stored p) (fun _ t₁ h₁ => ?_) fun _ _ h => h
  obtain ⟨attrs, hlook⟩ := h₁.2.content
  exact wp_mono (writeOpen_stored h₁.1 hlook (hdeny t₁)) (fun _ _ h => h₁.2.trans h)
    fun _ _ h => h.elim

theorem osMkdir_present {t : Tree} {p : Path} (h : t.has p = true) :
    wp (osMkdir env p) (fun _ _ => False) (fun _ t' => t' = t) t := by
  simp only [osMkdir, wp_bind, wp_get]
  cases hdeny : env.deny t (.mkdir p) with
  | none =>
    simp only [refuse, wp_bind, wp_get, hdeny, wp_pure, h, if_true, wp_throw]
  | some e => simp only [refuse, wp_bind, wp_get, hdeny, wp_throw]

theorem mkdirOne_present {t : Tree} {p : Path} (h : t.has p = true) :
    wp (mkdirOne env p) (fun _ t' => t' = t) (fun _ t' => t' = t) t := by
  simp only [mkdirOne, wp_tryCatch]
  refine wp_mono (osMkdir_present h) (fun _ _ h => h.elim) fun e t' h => ?_
  subst h
  simp only [wp_bind, wp_get]
  split
  · rfl
  · rfl

/-- Making a directory that is there changes nothing, also when it fails. -/
theorem mkdirs_present {t : Tree} {p : Path} (h : t.has p = true) :
    wp (mkdirs env p) (fun _ t' => t' = t) (fun _ t' => t' = t) t := by
  induction p with
  | nil => exact mkdirOne_present h
  | cons n d ih =>
    have hd := DirTree.has_of_isDir (DirTree.isDir_of_has h)
    simp only [mkdirs, wp_tryCatch]
    refine wp_mono (osMkdir_present h) (fun _ _ h => h.elim) fun e t' ht => ?_
    subst ht
    split
    · rw [wp_bind]
      refine wp_mono (ih hd) (fun _ t₁ h₁ => ?_) fun _ _ h => h
      subst h₁
      exact mkdirOne_present h
    · simp only [wp_bind, wp_get]
      split
      · rfl
      · rfl

/-! ## A small tree -/

/-- A host that refuses nothing. -/
def calm : HostEnv := ⟨fun _ _ => none, fun _ _ => 0⟩

/-- The file `/p/d/s/f`, with its directories. -/
def smallTree : Tree :=
  endState (createFile calm [['f'], ['s'], ['d'], ['p']] [] (DirTree.bare .empty))

end Cwhost.Vfs
