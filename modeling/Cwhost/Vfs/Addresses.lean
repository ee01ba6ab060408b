import Cwhost.MacRoman
import Cwhost.Vfs.Hfs

/-!
# Addresses (`vfs.py`: `hfs_path`, `fsspec`, `node_from_fsspec`)

The text of an HFS path, and a FSSpec: a volume reference, the number of the directory, and a Pascal
string. Both are made from a node and lead back to it.

* `hfsPath`, `fsspec`, `nodeFromFsspec`: the code's, `resolve_hfs` being `resolveHfs`.
* `Addressed`: every node is known by its number, the build root by 2, and what the VFS has listed
  is what the tree holds. Reading keeps it (`Reached.addressed`).
* `addresses_roundTrip`: **both addresses of an existing node lead back to it**, over every tree
  that obeys the naming rule and in every state that reading it reaches.

Premises: a `Tree` without symbolic links that obeys the naming rule (`NamingRule`); a state that
reading reaches.

Out of scope: lone surrogates in a name (a text is a list of Unicode scalar values).
-/

namespace Cwhost.Vfs

open Lib

/-! ## The encoders -/

/-- The loop of `hfs_path`: the names up to the root of the volume, and that root. It ends in the
root of the tree at the latest, after as many steps as the path has names. -/
def hfsNames : Nat → Node → List Str → VfsM (List Str × Node)
  | 0, cursor, current => return (current, cursor)
  | steps + 1, cursor, current => do
    match ← parent cursor with
    | none => return (current, cursor)
    | some p =>
      let name := (← get).vfs.nodeName cursor
      hfsNames steps p (current ++ [name])

/-- `hfs_path`. -/
def hfsPath (n : Node) : VfsM Str := do
  let (current, cursor) ← hfsNames (n.host.length + 1) n []
  return cursor.volume.name ++ ':' :: [':'].intercalate current.reverse

/-- `VFS.fsspec`. -/
def fsspec (n : Node) : VfsM (Int × Int × List UInt8) := do
  if n.vfs ≠ (← get).vfs.ident then
    throw (.hostError "FSSpec node belongs to another VFS")
  let volumeIndex : Int := if n.volume = .build then 0 else 1
  let parentId : Int := match ← parent n with
    | none => 2
    | some p => p.id
  let text := (← get).vfs.nodeName n
  match encodeMacRoman text with
  | none => throw (.hostError s!"HFS name is not representable in MacRoman: {pyRepr text}")
  | some name =>
    if name.length > 63 then
      throw (.hostError "FSSpec name exceeds 63 bytes")
    return (-(volumeIndex + 1), parentId, UInt8.ofNat name.length :: name)

/-! ## The decoder -/

/-- The name in a FSSpec. -/
inductive FsspecName
  | bytes (raw : List UInt8)
  | str (text : Str)

/-- The bytes of a name, less the length byte if there is one. -/
def fsspecRaw (name : FsspecName) : Except Exc (List UInt8) :=
  let raw := match name with
    | .bytes raw => some raw
    | .str text => encodeMacRoman text
  match raw with
  | none => throw .valueError
  | some [] => return []
  | some (b :: rest) => return if b.toNat = rest.length then rest else b :: rest

/-- The loop over the components. -/
def walkFsspec (fold : Str → Str) (view : HostView) : Node → List Str → VfsM Node
  | current, [] => return current
  | current, component :: rest =>
    if component = [] then walkFsspec fold view current rest
    else do
      match ← childrenNamed fold view current component with
      | [] => throw (.hostError s!"FSSpec component not found: {pyRepr component}")
      | found :: _ => walkFsspec fold view found rest

/-- The directory a FSSpec names. -/
def fsspecParent (view : HostView) (volume : Volume) (parId : Int) : VfsM Node := do
  let s ← get
  match (if 0 ≤ parId then s.vfs.ids.get? parId.toNat else none).filter
      fun p => decide (p.volume = volume) with
  | some p => return p
  | none =>
    if parId = 2 then node view (s.vfs.root volume)
    else throw (.hostError s!"unknown FSSpec parent directory {parId}")

/-- `VFS.node_from_fsspec`. -/
def nodeFromFsspec (fold : Str → Str) (view : HostView) (vRefNum parId : Int)
    (name : FsspecName) : VfsM Node := do
  let volumeIndex := -vRefNum - 1
  if volumeIndex ≠ 0 ∧ volumeIndex ≠ 1 then
    throw (.hostError s!"unknown FSSpec volume reference {vRefNum}")
  let parent ← fsspecParent view (if volumeIndex = 0 then .build else .host) parId
  let raw ← MonadExcept.ofExcept (fsspecRaw name)
  let text := decodeMacRoman raw
  if text = [] then return parent
  walkFsspec fold view parent (text.splitOn ':')

/-! ## What the addresses rest on -/

/-- What is used of `str.casefold`: only the empty text folds as it does, and the names of the two
volumes are told apart. -/
structure CaseFolding (fold : Str → Str) : Prop where
  empty : ∀ name, fold name = fold [] → name = []
  volumes : fold Volume.build.name ≠ fold Volume.host.name

/-- The HFS naming rule. The host itself has no entries called `.`, `..` or nothing. -/
structure NamingRule (fold : Str → Str) (t : Tree) : Prop where
  name : ∀ name dir, t.has (name :: dir) = true →
    name ≠ [] ∧ name ≠ ['.'] ∧ name ≠ ['.', '.'] ∧ ':' ∉ name
  folded : ∀ a b dir, t.has (a :: dir) = true → t.has (b :: dir) = true → fold a = fold b → a = b

/-- Every node is known by its number. -/
def Registry.Ids (s : Registry) : Prop := ∀ n, s.vfs.Has n → s.vfs.ids.get? n.id = some n

/-- The state of a VFS over a tree that does not change. -/
structure Addressed (fold : Str → Str) (t : Tree) (s : Registry) : Prop where
  wf : s.vfs.WF fold
  ids : s.Ids
  buildRoot : ∃ n, s.vfs.Has n ∧ n.host = s.vfs.buildRoot ∧ n.id = 2
  cache : ∀ p r, s.vfs.childrenCache.get? (s.vfs.volumeFor p, p) = some r →
    r.map Node.host = listing fold t p

section Numbers

variable {fold : Str → Str} {s : Registry}

theorem intern_ids (hwf : s.vfs.WF fold) (h : s.Ids) (host : Path) : (s.intern host).2.Ids := by
  cases hn : s.vfs.nodes.get? (s.vfs.volumeFor host, host) with
  | some n =>
    rw [intern_found hn]
    exact h
  | none =>
    rw [intern_new hn]
    intro m hm
    show (s.vfs.ids.set s.vfs.nextId _).get? m.id = some m
    rcases file_nodes hm with ⟨-, rfl⟩ | ⟨-, hm⟩
    · exact Dict.get?_set_self _ _ _
    · rw [Dict.get?_set_of_ne _ _ (Nat.ne_of_lt (hwf.id_lt hm))]
      exact h m hm

/-- Filing nodes keeps the numbers. -/
theorem ids_filing (fold : Str → Str) : Filing fold Registry.Ids where
  intern hwf h host := intern_ids hwf h host
  listings {s s'} h _ hnodes hids n hn := by
    unfold VFS.Has at hn
    rw [hnodes] at hn
    rw [hids]
    exact h n hn

end Numbers

/-! ## Every state that reading reaches -/

/-- A reading operation; the others are made of these. -/
inductive ReadStep
  | node (path : Path)
  | children (n : Node)
  | invalidate (path : Path)

/-- The operation. -/
def ReadStep.run (fold : Str → Str) (view : HostView) : ReadStep → VfsM Unit
  | .node path => discard (Vfs.node view path)
  | .children n => discard (Vfs.children fold view n)
  | .invalidate path => invalidatePath view path

/-- The states of a VFS that is made and read over one state of the host. -/
inductive Reached (fold : Str → Str) (view : HostView) (nodeById : Dict Nat Node) (ident : Nat)
    (buildRoot : Path) : Registry → Prop
  | init : Reached fold view nodeById ident buildRoot (.init nodeById ident buildRoot)
  | step {s : Registry} (h : Reached fold view nodeById ident buildRoot s) (step : ReadStep)
    (owned : ∀ n, step = .children n → s.vfs.Has n) :
    Reached fold view nodeById ident buildRoot (endState (step.run fold view s))

section Reached

variable {fold : Str → Str} {env : HostEnv} {t : Tree} {s s' : Registry}

/-- What the VFS shows of a directory is what the tree holds. -/
theorem Addressed.listed (h : Addressed fold t s) (hlist : (t.view env).Listable) :
    s.listed fold (t.view env) = listing fold t := by
  funext p
  unfold Registry.listed
  cases hc : s.vfs.childrenCache.get? (s.vfs.volumeFor p, p) with
  | some r => exact h.cache p r hc
  | none =>
    unfold listing
    dsimp only
    show (if t.isDir p = true then _ else _) = _
    by_cases hd : t.isDir p = true
    · obtain ⟨names, hnames⟩ := hlist p hd
      rw [if_pos hd, if_pos hd, hnames, Tree.view_listdir_ok hd hnames]
      rfl
    · rw [if_neg hd, if_neg hd]

/-- New nodes only. -/
theorem Addressed.interned (h : Addressed fold t s) (hi : Interned s s') (hwf : s'.vfs.WF fold)
    (hids : s'.Ids) : Addressed fold t s' := by
  obtain ⟨n, hn, hhost, hid⟩ := h.buildRoot
  refine ⟨hwf, hids, ⟨n, hi.has hn, hhost.trans hi.buildRoot.symm, hid⟩, fun p r hr => ?_⟩
  rw [hi.cache, volumeFor_congr hi.buildRoot] at hr
  exact h.cache p r hr

/-- A listing. -/
theorem Addressed.children (h : Addressed fold t s) {n : Node} (hn : s.vfs.Has n) :
    wp (Vfs.children fold (t.view env) n) (fun _ s' => Addressed fold t s')
      (fun _ s' => Addressed fold t s') s := by
  refine wp_mono (wp_and (children_spec h.wf n) ((ids_filing fold).children h.wf h.ids n)) ?_ ?_
  · rintro r s' ⟨hl, hids⟩
    obtain ⟨root, hroot, hhost, hid⟩ := h.buildRoot
    refine ⟨hl.wf, hids, ⟨root, hl.has hroot, hhost.trans hl.buildRoot.symm, hid⟩,
      fun p r' hr => ?_⟩
    rw [volumeFor_congr hl.buildRoot] at hr
    by_cases hp : (s.vfs.volumeFor p, p) = (n.volume, n.host)
    · rw [hp, hl.cache_self] at hr
      obtain ⟨-, rfl⟩ := Prod.mk.inj hp
      obtain rfl := Option.some.inj hr
      rcases hl.answer with hc | ⟨-, hlists⟩
      · exact h.cache n.host r (hp ▸ hc)
      · unfold listing
        by_cases hd : t.isDir n.host = true
        · obtain ⟨names, hnames, hhosts⟩ := hlists.dir hd
          rw [if_pos hd, hhosts, Tree.view_listdir_ok hd hnames]
          rfl
        · rw [if_neg hd, hlists.file (Bool.eq_false_iff.mpr hd)]
          rfl
    · rw [hl.cache_other hp] at hr
      exact h.cache p r' hr
  · rintro e s' ⟨⟨rfl, -⟩, -⟩
    exact h

/-- Dropped listings. -/
theorem Addressed.invalidate (h : Addressed fold t s) (host : Path) :
    Addressed fold t { s with vfs := s.vfs.invalidate host } := by
  obtain ⟨n, hn, hhost, hid⟩ := h.buildRoot
  have heq := invalidate_eq s.vfs host
  have hbuild : (s.vfs.invalidate host).buildRoot = s.vfs.buildRoot := by rw [heq]
  have hhas (m : Node) : (s.vfs.invalidate host).Has m ↔ s.vfs.Has m := by
    unfold VFS.Has
    rw [heq]
  refine ⟨invalidate_wf h.wf host, fun m hm => ?_, ⟨n, (hhas n).mpr hn, ?_, hid⟩, ?_⟩
  · have hget := h.ids m ((hhas m).mp hm)
    show (s.vfs.invalidate host).ids.get? m.id = some m
    rw [heq]
    exact hget
  · exact hhost.trans hbuild.symm
  · classical
    intro p r hr
    change (s.vfs.invalidate host).childrenCache.get? _ = some r at hr
    rw [volumeFor_congr hbuild, invalidate_cache] at hr
    split at hr
    · cases hr
    · exact h.cache p r hr

theorem init_addressed (fold : Str → Str) (t : Tree) (nodeById : Dict Nat Node) (ident : Nat)
    (buildRoot : Path) : Addressed fold t (.init nodeById ident buildRoot) := by
  have hnone : (VFS.blank ident buildRoot).nodes.get?
      ((VFS.blank ident buildRoot).volumeFor buildRoot, buildRoot) = none := rfl
  have hids : (⟨nodeById, .blank ident buildRoot⟩ : Registry).Ids := fun n hn => by cases hn
  have hwf₀ : (VFS.blank ident buildRoot).WF fold := blank_wf ident buildRoot
  obtain ⟨hi, hwf⟩ := init_spec fold nodeById ident buildRoot
  have hinit : Registry.init nodeById ident buildRoot =
      (Registry.mk nodeById (.blank ident buildRoot)).file
        ((VFS.blank ident buildRoot).newNode buildRoot) := by
    unfold Registry.init
    rw [intern_new hnone]
  refine ⟨hwf, intern_ids hwf₀ hids buildRoot,
    ⟨(VFS.blank ident buildRoot).newNode buildRoot, ?_, ?_, rfl⟩, fun p r hr => ?_⟩
  · rw [hinit]
    exact Dict.get?_set_self _ _ _
  · rw [hinit]
    rfl
  · rw [hi.cache] at hr
    cases hr

/-- **Reading keeps the addresses**, from the first state on. -/
theorem Reached.addressed {nodeById : Dict Nat Node} {ident : Nat} {buildRoot : Path}
    (h : Reached fold (t.view env) nodeById ident buildRoot s) : Addressed fold t s := by
  induction h with
  | init => exact init_addressed fold t nodeById ident buildRoot
  | @step s _ step owned ih =>
    cases step with
    | node path =>
      obtain ⟨hi, hwf, -, -⟩ := intern_spec ih.wf path
      exact ih.interned hi hwf (intern_ids ih.wf ih.ids path)
    | children n =>
      refine wp_endState (wp_discard.mpr ?_)
      exact ih.children (owned n rfl)
    | invalidate path => exact ih.invalidate path

end Reached

/-! ## The way to a node -/

section RoundTrip

variable {fold : Str → Str} {env : HostEnv} {t : Tree} {s : Registry}

/-- Between a path and the root of its volume, all paths are on that volume, and only the root is a
root. -/
theorem below_root {v : VFS} {host : Path} {name : Str} {rel : List Str}
    (h : name :: rel ++ v.root (v.volumeFor host) <:+ host) :
    v.volumeFor (name :: rel ++ v.root (v.volumeFor host)) = v.volumeFor host ∧
      name :: rel ++ v.root (v.volumeFor host) ≠ v.root (v.volumeFor host) := by
  refine ⟨(volumeFor_eq_iff h).mpr (List.suffix_append _ _), fun heq => ?_⟩
  have hlen := congrArg List.length heq
  rw [List.length_append, List.length_cons] at hlen
  omega

/-- **The first entry of a directory with a name** is the entry of that name. -/
theorem first_child (hfold : CaseFolding fold) (hrule : NamingRule fold t)
    (hlist : (t.view env).Listable) (h : Addressed fold t s) {name : Str} {dir : Path}
    (hhas : t.has (name :: dir) = true)
    (hroot : name :: dir ≠ s.vfs.root (s.vfs.volumeFor (name :: dir))) :
    s.first fold (t.view env) dir name = some (name :: dir) := by
  have hname (other : Str) (hother : t.has (other :: dir) = true) :
      fold (s.vfs.pathName (other :: dir)) = fold name ↔ other = name := by
    unfold VFS.pathName
    split
    · rename_i hr
      refine iff_of_false (fun he => ?_) ?_
      · exact (hrule.name name dir hhas).1 (hfold.empty name he.symm)
      · rintro rfl
        exact hroot hr
    · constructor
      · exact hrule.folded other name dir hother hhas
      · rintro rfl
        rfl
  have hmem : name ∈ sortedNames fold (t.names dir) :=
    (List.mem_insertionSort _).mpr (DirTree.mem_names.mpr hhas)
  unfold Registry.first
  rw [h.listed hlist, listing_eq]
  have hfind : ∀ names : List Str, (∀ other ∈ names, t.has (other :: dir) = true) →
      name ∈ names → (names.map (· :: dir)).find?
        (fun q => decide (fold (s.vfs.pathName q) = fold name)) = some (name :: dir) := by
    intro names hnames hin
    induction names with
    | nil => cases hin
    | cons other names ih =>
      rw [List.map_cons, List.find?_cons]
      by_cases heq : other = name
      · rw [decide_eq_true ((hname other (hnames other List.mem_cons_self)).mpr heq), heq]
      · have hne := mt (hname other (hnames other List.mem_cons_self)).mp heq
        rw [decide_eq_false hne]
        refine ih (fun o ho => hnames o (List.mem_cons_of_mem _ ho)) ?_
        exact (List.mem_cons.mp hin).resolve_left fun he => heq he.symm
  refine hfind _ (fun other hother => ?_) hmem
  exact DirTree.mem_names.mp ((List.mem_insertionSort _).mp hother)

/-- **The walk down** from the root of a volume. -/
theorem walk_down (hfold : CaseFolding fold) (hrule : NamingRule fold t)
    (hlist : (t.view env).Listable) (h : Addressed fold t s) {host : Path}
    (hhas : t.has host = true) (rel rest : List Str)
    (hrel : rel ++ s.vfs.root (s.vfs.volumeFor host) <:+ host) :
    s.hfsWalk fold (t.view env) (s.vfs.root (s.vfs.volumeFor host)) (rel.reverse ++ rest) =
      s.hfsWalk fold (t.view env) (rel ++ s.vfs.root (s.vfs.volumeFor host)) rest := by
  induction rel generalizing rest with
  | nil => rfl
  | cons name rel ih =>
    have hup : rel ++ s.vfs.root (s.vfs.volumeFor host) <:+ host :=
      (List.suffix_cons name _).trans hrel
    have hthere : t.has (name :: (rel ++ s.vfs.root (s.vfs.volumeFor host))) = true :=
      DirTree.has_of_suffix hrel hhas
    obtain ⟨hvolume, hroot⟩ := below_root hrel
    have hfirst := first_child hfold hrule hlist h hthere (by
      rw [List.cons_append] at hvolume hroot
      rw [hvolume]
      exact hroot)
    obtain ⟨hempty, hdot, hdotdot, -⟩ := hrule.name name _ hthere
    rw [List.reverse_cons, List.append_assoc, ih _ hup, List.singleton_append, Registry.hfsWalk,
      if_neg (by simp [hempty, hdot]), if_neg hdotdot, hfirst]
    rfl

/-- The root of a volume is on it. -/
theorem volumeFor_root (v : VFS) (host : Path) :
    v.volumeFor (v.root (v.volumeFor host)) = v.volumeFor host :=
  (volumeFor_eq_iff (root_suffix v host)).mpr (List.suffix_refl _)

/-- **The way up** collects the names. -/
theorem hfsNames_spec (view : HostView) {host : Path} (steps : Nat) (rel current : List Str)
    {cursor : Node} (hwf : s.vfs.WF fold) (hn : s.vfs.Has cursor)
    (hcursor : cursor.host = rel ++ s.vfs.root (s.vfs.volumeFor host))
    (hrel : rel ++ s.vfs.root (s.vfs.volumeFor host) <:+ host) (hsteps : rel.length < steps) :
    wp (hfsNames steps cursor current)
      (fun r s' => Reads fold view s s' ∧ r.1 = current ++ rel ∧
        r.2.volume = s.vfs.volumeFor host)
      (fun _ _ => False) s := by
  induction steps generalizing rel current cursor s with
  | zero => exact absurd hsteps (Nat.not_lt_zero _)
  | succ steps ih =>
    rw [hfsNames, wp_bind]
    refine wp_mono (parent_above view hwf hn) ?_ fun _ _ h => h
    rintro r s₁ ⟨hr, habove, hhas⟩
    unfold VFS.above at habove
    cases rel with
    | nil =>
      rw [List.nil_append] at hcursor
      rw [hcursor, volumeFor_root, if_pos rfl, Option.map_eq_none_iff] at habove
      subst habove
      refine ⟨hr, (List.append_nil _).symm, ?_⟩
      rw [hwf.volume_of_has hn, hcursor, volumeFor_root]
    | cons name rel =>
      obtain ⟨hvolume, hroot⟩ := below_root hrel
      rw [hcursor, hvolume, if_neg hroot, Option.map_eq_some_iff] at habove
      obtain ⟨p, rfl, hp⟩ := habove
      have hname : s₁.vfs.nodeName cursor = name := by
        rw [nodeName_of_has hr.wf (hr.has hn), hr.pathName, hcursor, VFS.pathName, hvolume,
          if_neg hroot]
        rfl
      have hvol : s₁.vfs.volumeFor host = s.vfs.volumeFor host := by
        rw [volumeFor_congr hr.buildRoot]
      have hroots : s₁.vfs.root (s₁.vfs.volumeFor host) = s.vfs.root (s.vfs.volumeFor host) := by
        rw [hvol, root_congr hr.buildRoot]
      show wp (hfsNames steps p (current ++ [s₁.vfs.nodeName cursor])) _ _ s₁
      rw [hname]
      refine wp_mono (@ih s₁ rel (current ++ [name]) p hr.wf (hhas p rfl) ?_ ?_ ?_) ?_ ?_
      · rw [hroots, hp]
        rfl
      · rw [hroots]
        exact (List.suffix_cons name _).trans hrel
      · exact Nat.lt_of_succ_lt_succ hsteps
      · rintro r s₂ ⟨hr₂, hnames, hvol₂⟩
        refine ⟨hr.trans hr₂, ?_, hvol₂.trans hvol⟩
        rw [hnames, List.append_assoc]
        rfl
      · exact fun _ _ h => h

/-- **The path of a node**: its volume, and the names from the root down. -/
theorem hfsPath_spec (view : HostView) (hwf : s.vfs.WF fold) {n : Node} (hn : s.vfs.Has n)
    {rel : List Str} (hrel : n.host = rel ++ s.vfs.root n.volume) :
    wp (hfsPath n)
      (fun path s' => Reads fold view s s' ∧
        path = n.volume.name ++ ':' :: [':'].intercalate rel.reverse)
      (fun _ _ => False) s := by
  have hvolume := hwf.volume_of_has hn
  rw [hvolume] at hrel
  have hlen : rel.length < n.host.length + 1 := by
    rw [hrel, List.length_append]
    omega
  unfold hfsPath
  rw [wp_bind]
  refine wp_mono (hfsNames_spec view (n.host.length + 1) rel [] hwf hn hrel
    (by rw [← hrel]) hlen) ?_ fun _ _ h => h
  rintro ⟨current, cursor⟩ s' ⟨hr, hcurrent, hcursor⟩
  refine ⟨hr, ?_⟩
  change current = [] ++ rel at hcurrent
  show cursor.volume.name ++ _ = _
  rw [hcursor, hcurrent, hvolume]
  rfl

theorem volumeNamed_name (hfold : CaseFolding fold) (volume : Volume) :
    volumeNamed fold volume.name = some volume := by
  unfold volumeNamed
  cases volume with
  | build => rw [if_neg hfold.volumes, if_pos rfl]
  | host => rw [if_pos rfl]

/-- Reading the text of a path. -/
theorem hfs_text (volume : Volume) {names : List Str} (h : ∀ name ∈ names, name ≠ [] ∧ ':' ∉ name) :
    leadingColons (volume.name ++ ':' :: [':'].intercalate names) = 0 ∧
      hfsFirst (volume.name ++ ':' :: [':'].intercalate names) = volume.name ∧
      hfsComponents (volume.name ++ ':' :: [':'].intercalate names) = names := by
  have hcolon : ':' ∉ volume.name := by cases volume <;> decide
  have hleading : leadingColons (volume.name ++ ':' :: [':'].intercalate names) = 0 := by
    cases volume <;> rfl
  have hsplit : (volume.name ++ ':' :: [':'].intercalate names).splitOn ':' =
      volume.name :: ([':'].intercalate names).splitOn ':' :=
    List.splitOn_append_cons_self_of_not_mem hcolon _
  refine ⟨hleading, ?_, ?_⟩
  · unfold hfsFirst
    rw [hsplit]
    rfl
  · unfold hfsComponents
    rw [if_pos hleading, hsplit, List.tail_cons]
    by_cases hnil : names = []
    · rw [hnil]
      rfl
    · rw [List.splitOn_intercalate ':' (fun name hname => (h name hname).2) hnil,
        List.filter_eq_self]
      exact fun name hname => decide_eq_true (h name hname).1

/-- A path that names a volume does not depend on the current directory. -/
theorem resolveHfs_absolute {view : HostView} {path : Str} (h : leadingColons path = 0)
    (cwd : Option Node) : resolveHfs fold view path cwd = resolveHfs fold view path none := by
  unfold resolveHfs startNode
  rw [if_neg (not_not.mpr h), if_neg (not_not.mpr h)]

/-- The names on the way to an entry obey the rule. -/
theorem names_of_has (hrule : NamingRule fold t) {rel : List Str} {root : Path}
    (hhas : t.has (rel ++ root) = true) : ∀ name ∈ rel, name ≠ [] ∧ ':' ∉ name := by
  induction rel with
  | nil => simp
  | cons name rel ih =>
    obtain ⟨hempty, -, -, hcolon⟩ := hrule.name name (rel ++ root) hhas
    refine List.forall_mem_cons.mpr ⟨⟨hempty, hcolon⟩, ih ?_⟩
    exact DirTree.has_of_suffix (List.suffix_cons name _) hhas

/-- **The path of a node leads back to it**, whatever the current directory. -/
theorem resolveHfs_hfsPath (hfold : CaseFolding fold) (hrule : NamingRule fold t)
    (hlist : (t.view env).Listable) (h : Addressed fold t s) {n : Node} (hn : s.vfs.Has n)
    (hhas : t.has n.host = true) (cwd : Option Node) :
    wp (hfsPath n >>= fun path => resolveHfs fold (t.view env) path cwd) (fun m _ => m = n)
      (fun _ _ => False) s := by
  obtain ⟨rel, hrel⟩ := root_suffix s.vfs n.host
  have hvolume := h.wf.volume_of_has hn
  rw [wp_bind]
  refine wp_mono (hfsPath_spec (t.view env) h.wf hn (hvolume ▸ hrel.symm)) ?_ fun _ _ h => h
  rintro path s₁ ⟨hr, rfl⟩
  have hnames : ∀ name ∈ rel.reverse, name ≠ [] ∧ ':' ∉ name := by
    intro name hmem
    exact names_of_has hrule (hrel ▸ hhas) name (List.mem_reverse.mp hmem)
  obtain ⟨hleading, hfirst, hcomponents⟩ := hfs_text n.volume hnames
  have hend : s₁.hfsEnd fold (t.view env) (n.volume.name ++ ':' :: [':'].intercalate rel.reverse)
      none = some (.found n.host) := by
    have hwalk := walk_down hfold hrule hlist h hhas rel [] (by rw [hrel])
    rw [List.append_nil, hrel] at hwalk
    unfold Registry.hfsEnd VFS.hfsStart
    rw [if_neg (not_not.mpr hleading), hfirst, volumeNamed_name hfold, hcomponents]
    show some (s₁.hfsWalk fold (t.view env) (s₁.vfs.root n.volume) rel.reverse) = _
    rw [hr.hfsWalk, root_congr hr.buildRoot, hvolume, hwalk]
    rfl
  rw [resolveHfs_absolute hleading]
  refine wp_mono (resolveHfs_spec hr.wf (List.append_ne_nil_of_right_ne_nil _ (by simp))
    (fun _ h => by cases h)) ?_ ?_
  · rintro m s₂ ⟨hr₂, hm, hfound⟩
    rw [Option.map_none, hend] at hfound
    have hhost : n.host = m.host := HfsEnd.found.inj (Option.some.inj hfound)
    exact eq_of_host hr₂.wf hm (hr₂.has (hr.has hn)) hhost.symm
  · rintro e s₂ ⟨-, hnot, -⟩
    exact hnot n.host hend

/-- The volume reference of a node. -/
def volumeRef (volume : Volume) : Int := if volume = .build then -1 else -2

/-- **The FSSpec of a node**: its volume, the number of its directory, or 2, and its name. What
`parent` keeps is kept. -/
theorem fsspec_spec (view : HostView) (hwf : s.vfs.WF fold) {n : Node} (hn : s.vfs.Has n)
    {I : Registry → Prop} (hI : wp (parent n) (fun _ s' => I s') (fun _ _ => False) s)
    {name : List UInt8} (hname : encodeMacRoman (s.vfs.nodeName n) = some name)
    (hlen : name.length ≤ 63) :
    wp (fsspec n)
      (fun spec s' => (Reads fold view s s' ∧ I s') ∧ spec.1 = volumeRef n.volume ∧
        spec.2.2 = UInt8.ofNat name.length :: name ∧
        (s.vfs.above n.host = none ∧ spec.2.1 = 2 ∨ ∃ p, s'.vfs.Has p ∧
          s.vfs.above n.host = some p.host ∧ spec.2.1 = p.id))
      (fun _ _ => False) s := by
  have howner : ¬ n.vfs ≠ s.vfs.ident := not_not.mpr (hwf.owner hn)
  unfold fsspec
  rw [wp_bind, wp_get, if_neg howner]
  dsimp only
  rw [wp_bind]
  refine wp_mono (wp_and (parent_above view hwf hn) hI) ?_ fun _ _ h => h.1
  rintro r s₁ ⟨⟨hr, habove, hhas⟩, hI₁⟩
  rw [wp_bind, wp_get, hr.nodeName hwf hn, hname]
  dsimp only
  rw [if_neg (Nat.not_lt.mpr hlen)]
  refine ⟨⟨hr, hI₁⟩, ?_, rfl, ?_⟩
  · unfold volumeRef
    split <;> rfl
  · cases r with
    | none => exact Or.inl ⟨habove.symm, rfl⟩
    | some p => exact Or.inr ⟨p, hhas p rfl, habove.symm, rfl⟩

/-- **The directory of a FSSpec** is found by its number. -/
theorem fsspecParent_known {view : HostView} (hids : s.Ids) {p : Node} (hp : s.vfs.Has p) :
    fsspecParent view p.volume p.id s = .ok p s := by
  unfold fsspecParent
  rw [bind_of_ok (get_eq s), if_pos (Int.natCast_nonneg p.id), Int.toNat_natCast, hids p hp,
    Option.filter_some, if_pos (decide_eq_true rfl)]
  rfl

/-- The root of a volume is found by the number 2, although it is the number of the build root. -/
theorem fsspecParent_root (hwf : s.vfs.WF fold) (hids : s.Ids)
    (hbuild : ∃ r, s.vfs.Has r ∧ r.host = s.vfs.buildRoot ∧ r.id = 2) {n : Node}
    (hn : s.vfs.Has n) (hroot : n.host = s.vfs.root n.volume) :
    wp (fsspecParent (t.view env) n.volume 2) (fun m _ => m = n) (fun _ _ => False) s := by
  obtain ⟨r, hr, hhost, hid⟩ := hbuild
  have hget : s.vfs.ids.get? 2 = some r := hid ▸ hids r hr
  have hrvolume : r.volume = .build := by
    rw [hwf.volume_of_has hr, hhost]
    exact if_pos (List.suffix_refl _)
  unfold fsspecParent
  rw [wp_bind, wp_get, if_pos (by decide)]
  show wp (match (s.vfs.ids.get? 2).filter _ with | some p => _ | none => _) _ _ s
  rw [hget, Option.filter_some]
  by_cases hvolume : r.volume = n.volume
  · rw [if_pos (decide_eq_true hvolume)]
    refine eq_of_host hwf hr hn ?_
    rw [hroot, ← hvolume, hrvolume, hhost]
    rfl
  · rw [decide_eq_false hvolume]
    show wp (if (2 : Int) = 2 then node (t.view env) (s.vfs.root n.volume) else _) _ _ s
    rw [if_pos rfl]
    refine wp_mono (node_spec hwf _) ?_ fun _ _ h => h
    rintro m s' ⟨⟨hi, hwf'⟩, hmhost, hm⟩
    exact eq_of_host hwf' hm (hi.has hn) (hmhost.trans hroot.symm)

/-- A node below the root of its volume, and its directory. -/
theorem above_cons (hwf : s.vfs.WF fold) {n : Node} (hn : s.vfs.Has n) {p : Path}
    (h : s.vfs.above n.host = some p) :
    ∃ name, n.host = name :: p ∧ s.vfs.nodeName n = name ∧ s.vfs.volumeFor p = n.volume := by
  have hvolume := hwf.volume_of_has hn
  unfold VFS.above at h
  split at h
  · cases h
  rename_i hroot
  obtain rfl := Option.some.inj h
  have hname : s.vfs.nodeName n = n.host.headD [] := if_neg (hvolume ▸ hroot)
  cases hhost : n.host with
  | nil =>
    have hnil := root_suffix s.vfs n.host
    rw [hhost, List.suffix_nil] at hnil
    rw [hhost] at hroot
    exact absurd hnil.symm hroot
  | cons name dir =>
    rw [hhost] at hvolume hname hroot
    have hsuffix : s.vfs.root (s.vfs.volumeFor (name :: dir)) <:+ dir :=
      (List.suffix_cons_iff.mp (root_suffix s.vfs (name :: dir))).resolve_left
        fun heq => hroot heq.symm
    refine ⟨name, rfl, hname, ?_⟩
    rw [hvolume]
    exact (volumeFor_eq_iff (List.suffix_cons name dir)).mpr hsuffix

/-- **The name of a FSSpec** leads from the directory to the node. -/
theorem walkFsspec_name (hfold : CaseFolding fold) (hrule : NamingRule fold t)
    (hlist : (t.view env).Listable) (h : Addressed fold t s) {n : Node} (hn : s.vfs.Has n)
    (hhas : t.has n.host = true) {s₁ : Registry} (hr : Reads fold (t.view env) s s₁) {p : Node}
    (hp : s₁.vfs.Has p) (habove : s.vfs.above n.host = some p.host) :
    s.vfs.nodeName n ≠ [] ∧
      wp (walkFsspec fold (t.view env) p ((s.vfs.nodeName n).splitOn ':')) (fun m _ => m = n)
        (fun _ _ => False) s₁ := by
  obtain ⟨name, hhost, hname, -⟩ := above_cons h.wf hn habove
  rw [hhost] at hhas
  obtain ⟨hempty, -, -, hcolon⟩ := hrule.name name p.host hhas
  have hroot : name :: p.host ≠ s.vfs.root (s.vfs.volumeFor (name :: p.host)) := by
    intro heq
    rw [hhost] at habove
    unfold VFS.above at habove
    rw [if_pos heq] at habove
    cases habove
  have hfirst := first_child hfold hrule hlist h hhas hroot
  rw [hname, List.splitOn_eq_singleton hcolon, walkFsspec, if_neg hempty, wp_bind]
  refine ⟨hempty, wp_mono (childrenNamed_first hr.wf hp name) ?_ ?_⟩
  · rintro r s₂ ⟨hr₂, hhead, hall⟩
    rw [hr.first, hfirst] at hhead
    cases r with
    | nil => cases hhead
    | cons found r =>
      have hfound : found.host = n.host := (Option.some.inj hhead).trans hhost.symm
      exact eq_of_host hr₂.wf (hall found List.mem_cons_self) (hr₂.has (hr.has hn)) hfound
  · rintro e s₂ ⟨-, -, -, hnot⟩
    exact hnot hlist

/-- The number a FSSpec has for the directory of `n`. -/
def NumbersParent (s : Registry) (n : Node) (parId : Int) : Prop :=
  s.vfs.above n.host = none ∧ parId = 2 ∨
    ∃ p, s.vfs.Has p ∧ s.vfs.above n.host = some p.host ∧ parId = p.id

/-- **What a FSSpec leads to**: the root itself, or where the name leads from the directory. -/
theorem nodeFromFsspec_walk (hwf : s.vfs.WF fold) (hids : s.Ids)
    (hbuild : ∃ r, s.vfs.Has r ∧ r.host = s.vfs.buildRoot ∧ r.id = 2) {n : Node}
    (hn : s.vfs.Has n) {name : List UInt8}
    (hname : encodeMacRoman (s.vfs.nodeName n) = some name) (hlen : name.length ≤ 63)
    {parId : Int} (hparent : NumbersParent s n parId) {Q : Node → Registry → Prop}
    {E : Exc → Registry → Prop} (hroot : s.vfs.above n.host = none → ∀ s', Q n s')
    (hwalk : ∀ p, s.vfs.Has p → s.vfs.above n.host = some p.host → s.vfs.nodeName n ≠ [] ∧
      wp (walkFsspec fold (t.view env) p ((s.vfs.nodeName n).splitOn ':')) Q E s) :
    wp (nodeFromFsspec fold (t.view env) (volumeRef n.volume) parId
      (.bytes (UInt8.ofNat name.length :: name))) Q E s := by
  have hindex : ¬ (-volumeRef n.volume - 1 ≠ 0 ∧ -volumeRef n.volume - 1 ≠ 1) := by
    unfold volumeRef
    split <;> decide
  have hvolume : (if -volumeRef n.volume - 1 = 0 then Volume.build else .host) = n.volume := by
    unfold volumeRef
    cases n.volume <;> rfl
  have hstrip : fsspecRaw (.bytes (UInt8.ofNat name.length :: name)) = .ok name := by
    have hbyte : (UInt8.ofNat name.length).toNat = name.length := by
      rw [UInt8.toNat_ofNat']
      omega
    unfold fsspecRaw
    dsimp only
    rw [if_pos hbyte]
    rfl
  have htext : decodeMacRoman name = s.vfs.nodeName n := decodeMacRoman_encode hname
  unfold nodeFromFsspec
  dsimp only
  rw [if_neg hindex, hvolume, hstrip]
  rcases hparent with ⟨habove, rfl⟩ | ⟨p, hp, habove, rfl⟩
  · have hatRoot : n.host = s.vfs.root n.volume := by
      unfold VFS.above at habove
      split at habove
      · rename_i hatRoot
        rw [hwf.volume_of_has hn]
        exact hatRoot
      · cases habove
    have hempty : s.vfs.nodeName n = [] := if_pos hatRoot
    rw [wp_bind]
    refine wp_mono (fsspecParent_root hwf hids hbuild hn hatRoot) ?_ fun _ _ h => False.elim h
    rintro m s' rfl
    show wp (if decodeMacRoman name = [] then _ else _) _ _ s'
    rw [htext, hempty, if_pos rfl]
    exact hroot habove s'
  · obtain ⟨-, -, -, hpvolume⟩ := above_cons hwf hn habove
    rw [← hwf.volume_of_has hp] at hpvolume
    have hknown := @fsspecParent_known s (t.view env) hids p hp
    rw [hpvolume] at hknown
    obtain ⟨hne, hwalk⟩ := hwalk p hp habove
    rw [wp_bind, wp_iff_of_ok hknown]
    show wp (if decodeMacRoman name = [] then _ else _) _ _ s
    rw [htext, if_neg hne]
    exact hwalk

/-- **A FSSpec leads back to its node.** -/
theorem nodeFromFsspec_fsspec (hfold : CaseFolding fold) (hrule : NamingRule fold t)
    (hlist : (t.view env).Listable) (h : Addressed fold t s) {n : Node} (hn : s.vfs.Has n)
    (hhas : t.has n.host = true) {name : List UInt8}
    (hname : encodeMacRoman (s.vfs.nodeName n) = some name) (hlen : name.length ≤ 63) :
    wp (fsspec n >>= fun spec =>
        nodeFromFsspec fold (t.view env) spec.1 spec.2.1 (.bytes spec.2.2))
      (fun m _ => m = n) (fun _ _ => False) s := by
  have hparent := (ids_filing fold).parent h.wf h.ids n
  rw [wp_bind]
  refine wp_mono (fsspec_spec (t.view env) h.wf hn hparent hname hlen) ?_ fun _ _ h => h
  rintro ⟨vRefNum, parId, raw⟩ s₁ ⟨⟨hr, hids₁⟩, hvref, hraw, hparent⟩
  dsimp only at hvref hraw hparent ⊢
  subst hvref hraw
  obtain ⟨r, hr', hhost, hid⟩ := h.buildRoot
  rw [← hr.nodeName h.wf hn] at hname
  refine nodeFromFsspec_walk hr.wf hids₁ ⟨r, hr.has hr', hhost.trans hr.buildRoot.symm, hid⟩
    (hr.has hn) hname hlen ?_ (fun _ _ => rfl) fun p hp habove => ?_
  · unfold NumbersParent
    rw [hr.above]
    exact hparent
  · rw [hr.above] at habove
    rw [hr.nodeName h.wf hn]
    exact walkFsspec_name hfold hrule hlist h hn hhas hr hp habove

end RoundTrip

/-- **Addresses round trip.** Over a tree whose directories can all be listed and that obeys the
naming rule, in every state that reading it reaches: the HFS path of an existing node leads back to
it from any current directory, and so does its FSSpec, if the name has at most 63 bytes. -/
theorem addresses_roundTrip {fold : Str → Str} {env : HostEnv} {t : Tree}
    {nodeById : Dict Nat Node} {ident : Nat} {buildRoot : Path} {s : Registry}
    (hfold : CaseFolding fold) (hrule : NamingRule fold t) (hlist : (t.view env).Listable)
    (hreached : Reached fold (t.view env) nodeById ident buildRoot s) {n : Node}
    (hn : s.vfs.Has n) (hexists : t.has n.host = true) :
    (∀ cwd, wp (hfsPath n >>= fun path => resolveHfs fold (t.view env) path cwd)
      (fun m _ => m = n) (fun _ _ => False) s) ∧
    ∀ name, encodeMacRoman (s.vfs.nodeName n) = some name → name.length ≤ 63 →
      wp (fsspec n >>= fun spec =>
          nodeFromFsspec fold (t.view env) spec.1 spec.2.1 (.bytes spec.2.2))
        (fun m _ => m = n) (fun _ _ => False) s := by
  have h := hreached.addressed
  refine ⟨resolveHfs_hfsPath hfold hrule hlist h hn hexists, fun name hname hlen => ?_⟩
  exact nodeFromFsspec_fsspec hfold hrule hlist h hn hexists hname hlen

/-- The small tree obeys the rule. -/
theorem smallTree_rule : NamingRule id smallTree := by
  have hnames : ∀ p ∈ smallTree.support, p = [] ∨ (p.headD [] ≠ [] ∧ p.headD [] ≠ ['.'] ∧
      p.headD [] ≠ ['.', '.'] ∧ ':' ∉ p.headD []) := by decide
  refine ⟨fun name dir h => ?_, fun _ _ _ _ _ h => h⟩
  obtain ⟨e, he⟩ := DirTree.has_iff.mp h
  exact (hnames _ (smallTree.look_support he)).resolve_left (List.cons_ne_nil _ _)

theorem smallTree_listable : (smallTree.view calm).Listable :=
  fun _ hd => ⟨_, Tree.view_listdir_eq hd rfl⟩

theorem id_caseFolding : CaseFolding id := ⟨fun _ h => h, by decide⟩

/-- The VFS with the build root `/p/d`, asked for the file. -/
def fileRegistry : Registry :=
  ((Registry.init .empty 0 [['d'], ['p']]).intern [['f'], ['s'], ['d'], ['p']]).2

/-- The node of the file. -/
def fileNode : Node := ⟨0, [['f'], ['s'], ['d'], ['p']], .build, 3⟩

/-- The file on the Build volume. -/
theorem addresses_roundTrip_file :
    wp (fsspec fileNode >>= fun spec =>
        nodeFromFsspec id (smallTree.view calm) spec.1 spec.2.1 (.bytes spec.2.2))
      (fun m _ => m = fileNode) (fun _ _ => False) fileRegistry := by
  have hreached : Reached id (smallTree.view calm) .empty 0 [['d'], ['p']] fileRegistry :=
    .step .init (.node [['f'], ['s'], ['d'], ['p']]) fun _ h => by cases h
  refine (addresses_roundTrip id_caseFolding smallTree_rule smallTree_listable hreached
    (n := fileNode) ?_ ?_).2 [0x66] ?_ ?_
  · rfl
  · decide
  · decide
  · decide

end Cwhost.Vfs
