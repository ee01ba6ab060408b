import Cwhost.Vfs.Nodes

/-!
# HFS paths (`vfs.py`, `VFS.resolve_hfs`)

`resolveHfs` is the code's: it lists directories and makes nodes as it goes. `hfsStart` and
`hfsWalk` say what an HFS path means, over what the VFS and the host show of each directory.

* `resolveHfs_spec`: the code finds what the path means, raises `NotFound` where a component is
  missing, and another `HostError` where the path has no start or climbs above a volume root.

Premises: `Listable` where a result asks that every directory can be listed; names and paths are
lists of code points.

Out of scope: paths that cannot be resolved or stat'ed. `Path.resolve` raises a `RuntimeError` on a
loop of symbolic links, and `Path.is_dir` a `PermissionError` below a directory that can be listed
and not searched; both escape. A `HostView` answers for every path.
-/

namespace Cwhost.Vfs

open Lib

/-- `_volumes.get(name.casefold())`. -/
def volumeNamed (fold : Str → Str) (name : Str) : Option Volume :=
  if fold name = fold Volume.host.name then some .host
  else if fold name = fold Volume.build.name then some .build
  else none

/-- The number of leading colons. -/
def leadingColons (path : Str) : Nat := (path.takeWhile (· = ':')).length

/-- The part before the first colon. -/
def hfsFirst (path : Str) : Str := (path.splitOn ':').headD []

/-- The components after the volume, or after the leading colons; empty ones do not count. -/
def hfsComponents (path : Str) : List Str :=
  (if leadingColons path = 0 then (path.splitOn ':').tail
    else (path.drop (leadingColons path)).splitOn ':').filter fun part => decide (part ≠ [])

/-- The loop over the leading colons after the first. -/
def climbNodes : Nat → Node → VfsM Node
  | 0, current => pure current
  | steps + 1, current => do
    match ← parent current with
    | none => throw (.hostError "HFS path traverses above volume root")
    | some p => climbNodes steps p

/-- The loop over the components. -/
def walkNodes (fold : Str → Str) (view : HostView) : Node → List Str → VfsM Node
  | current, [] => pure current
  | current, component :: rest => do
    if component = ['.'] ∨ component = [] then walkNodes fold view current rest
    else if component = ['.', '.'] then
      match ← parent current with
      | none => throw (.hostError "HFS path traverses above volume root")
      | some p => walkNodes fold view p rest
    else
      match ← childrenNamed fold view current component with
      | [] => throw (.notFound s!"HFS component not found: {pyRepr component}")
      | found :: _ => walkNodes fold view found rest

/-- Where `resolve_hfs` starts. -/
def startNode (fold : Str → Str) (view : HostView) (path : Str) (cwd : Option Node) :
    VfsM Node := do
  if path = [] then throw (.hostError "empty HFS path")
  if leadingColons path ≠ 0 then
    match cwd with
    | none => throw (.hostError "relative HFS path has no current directory")
    | some cwd => climbNodes (leadingColons path - 1) cwd
  else
    match volumeNamed fold (hfsFirst path) with
    | none => throw (.hostError s!"unknown HFS volume in {pyRepr path}")
    | some volume => node view ((← get).vfs.root volume)

/-- `VFS.resolve_hfs`. -/
def resolveHfs (fold : Str → Str) (view : HostView) (path : Str) (cwd : Option Node) :
    VfsM Node := do
  let current ← startNode fold view path cwd
  walkNodes fold view current (hfsComponents path)

/-! ## What an HFS path means -/

/-- The paths `children` returns for a directory: the cached listing, or the host's. -/
def Registry.listed (fold : Str → Str) (view : HostView) (s : Registry) (p : Path) : List Path :=
  match s.vfs.childrenCache.get? (s.vfs.volumeFor p, p) with
  | some r => r.map Node.host
  | none =>
    if view.isDir p then
      match view.listdir p with
      | .ok names => (sortedNames fold names).map fun name => view.resolve (name :: p)
      | .error _ => []
    else []

/-- The name of the node at a path. -/
def VFS.pathName (v : VFS) (p : Path) : Str :=
  if p = v.root (v.volumeFor p) then [] else p.headD []

/-- The directory of a path, unless that is the root of its volume. -/
def VFS.above (v : VFS) (p : Path) : Option Path :=
  if p = v.root (v.volumeFor p) then none else some p.tail

/-- The first entry of a directory with a name. -/
def Registry.first (fold : Str → Str) (view : HostView) (s : Registry) (p : Path) (name : Str) :
    Option Path :=
  (s.listed fold view p).find? fun q => decide (fold (s.vfs.pathName q) = fold name)

/-- So many directories up. -/
def VFS.climb (v : VFS) : Nat → Path → Option Path
  | 0, p => some p
  | steps + 1, p => (v.above p).bind (v.climb steps)

/-- Where a walk ends. -/
inductive HfsEnd
  | found (p : Path)
  /-- A component names nothing. -/
  | missing
  /-- `..` in the root of a volume. -/
  | aboveRoot
  deriving DecidableEq, Repr

/-- The walk from a directory. -/
def Registry.hfsWalk (fold : Str → Str) (view : HostView) (s : Registry) :
    Path → List Str → HfsEnd
  | p, [] => .found p
  | p, component :: rest =>
    if component = ['.'] ∨ component = [] then s.hfsWalk fold view p rest
    else if component = ['.', '.'] then
      match s.vfs.above p with
      | none => .aboveRoot
      | some q => s.hfsWalk fold view q rest
    else
      match s.first fold view p component with
      | none => .missing
      | some q => s.hfsWalk fold view q rest

/-- The directory a path starts in: the root of a known volume, or as many directories up from the
current one as there are colons after the first. -/
def VFS.hfsStart (fold : Str → Str) (view : HostView) (v : VFS) (path : Str) (cwd : Option Path) :
    Option Path :=
  if leadingColons path ≠ 0 then cwd.bind (v.climb (leadingColons path - 1))
  else (volumeNamed fold (hfsFirst path)).map fun volume => view.resolve (v.root volume)

/-! ## The code finds what the path means -/

/-- Every directory can be listed. -/
def HostView.Listable (view : HostView) : Prop :=
  ∀ p, view.isDir p = true → ∃ names, view.listdir p = .ok names

section Refinement

variable {fold : Str → Str} {view : HostView} {s s' s'' : Registry}

/-- Nodes were made and directories listed, over one state of the host. -/
structure Reads (fold : Str → Str) (view : HostView) (s s' : Registry) : Prop
    extends Grown s s' where
  wf : s'.vfs.WF fold
  listed : s'.listed fold view = s.listed fold view

theorem Reads.refl (hwf : s.vfs.WF fold) : Reads fold view s s := ⟨.refl s, hwf, rfl⟩

theorem Reads.trans (h : Reads fold view s s') (h' : Reads fold view s' s'') :
    Reads fold view s s'' := ⟨h.toGrown.trans h'.toGrown, h'.wf, h'.listed.trans h.listed⟩

/-- What is read later is read from the start. -/
theorem Reads.wp_trans {α : Type} {x : VfsM α} {Q : α → Registry → Prop}
    {E : Exc → Registry → Prop} (hr : Reads fold view s s')
    (h : wp x (fun a r => Reads fold view s' r ∧ Q a r)
      (fun e r => Reads fold view s' r ∧ E e r) s') :
    wp x (fun a r => Reads fold view s r ∧ Q a r) (fun e r => Reads fold view s r ∧ E e r) s' :=
  wp_mono h (fun _ _ h => ⟨hr.trans h.1, h.2⟩) fun _ _ h => ⟨hr.trans h.1, h.2⟩

theorem Interned.reads (h : Interned s s') (hwf : s'.vfs.WF fold) : Reads fold view s s' := by
  refine ⟨h.toGrown, hwf, ?_⟩
  funext p
  rw [Registry.listed, Registry.listed, h.cache, volumeFor_congr h.buildRoot]

/-- What a node says of itself. -/
theorem VFS.WF.volume_of_has (hwf : s.vfs.WF fold) {n : Node} (h : s.vfs.Has n) :
    n.volume = s.vfs.volumeFor n.host := hwf.volume h

theorem VFS.WF.key_of_has (hwf : s.vfs.WF fold) {n : Node} (h : s.vfs.Has n) :
    (n.volume, n.host) = (s.vfs.volumeFor n.host, n.host) := by
  rw [hwf.volume_of_has h]

/-- What was listed is what the directory shows. -/
theorem Listed.hosts {n : Node} {r : List Node} (hwf : s.vfs.WF fold) (hn : s.vfs.Has n)
    (h : Listed fold view s s' n r) : r.map Node.host = s.listed fold view n.host := by
  rw [Registry.listed, ← hwf.key_of_has hn]
  rcases h.answer with hc | ⟨hc, hl⟩
  · rw [hc]
  · rw [hc]
    dsimp only
    split
    · rename_i hd
      obtain ⟨names, hnames, hr⟩ := hl.dir hd
      rw [hnames, hr]
    · rename_i hd
      rw [hl.file (Bool.eq_false_iff.mpr hd)]
      rfl

theorem Listed.reads {n : Node} {r : List Node} (hwf : s.vfs.WF fold) (hn : s.vfs.Has n)
    (h : Listed fold view s s' n r) : Reads fold view s s' := by
  refine ⟨h.toGrown, h.wf, ?_⟩
  funext p
  by_cases hp : (s.vfs.volumeFor p, p) = (n.volume, n.host)
  · obtain ⟨-, rfl⟩ := Prod.mk.inj hp
    rw [← h.hosts hwf hn, Registry.listed, volumeFor_congr h.buildRoot, hp, h.cache_self]
  · rw [Registry.listed, Registry.listed, volumeFor_congr h.buildRoot, h.cache_other hp]

theorem Reads.pathName (h : Reads fold view s s') : s'.vfs.pathName = s.vfs.pathName := by
  funext p
  rw [VFS.pathName, VFS.pathName, root_congr h.buildRoot, volumeFor_congr h.buildRoot]

theorem Reads.above (h : Reads fold view s s') : s'.vfs.above = s.vfs.above := by
  funext p
  rw [VFS.above, VFS.above, root_congr h.buildRoot, volumeFor_congr h.buildRoot]

theorem Reads.first (h : Reads fold view s s') : s'.first fold view = s.first fold view := by
  funext p name
  rw [Registry.first, Registry.first, h.listed, h.pathName]

/-- The meaning of a path does not change while it is read. -/
theorem Reads.hfsWalk (h : Reads fold view s s') : ∀ (p : Path) (rest : List Str),
    s'.hfsWalk fold view p rest = s.hfsWalk fold view p rest
  | _, [] => rfl
  | p, component :: rest => by
    have ih := fun q => h.hfsWalk q rest
    simp only [Registry.hfsWalk, h.above, h.first, ih]

theorem nodeName_of_has (hwf : s.vfs.WF fold) {n : Node} (h : s.vfs.Has n) :
    s.vfs.nodeName n = s.vfs.pathName n.host := by
  rw [VFS.nodeName, VFS.pathName, hwf.volume_of_has h]

/-- The name of a node does not change. -/
theorem Reads.nodeName (h : Reads fold view s s') (hwf : s.vfs.WF fold) {n : Node}
    (hn : s.vfs.Has n) : s'.vfs.nodeName n = s.vfs.nodeName n := by
  rw [nodeName_of_has h.wf (h.has hn), nodeName_of_has hwf hn, h.pathName]

/-- A node is known by its path. -/
theorem eq_of_host {v : VFS} (hwf : v.WF fold) {m n : Node} (hm : v.Has m) (hn : v.Has n)
    (h : m.host = n.host) : m = n := by
  have hvolume : m.volume = n.volume := by rw [hwf.volume hm, hwf.volume hn, h]
  unfold VFS.Has at hm hn
  rw [hvolume, h, hn] at hm
  exact (Option.some.inj hm).symm

/-- `parent` is the directory above. -/
theorem parent_above (view : HostView) (hwf : s.vfs.WF fold) {n : Node} (hn : s.vfs.Has n) :
    wp (parent n)
      (fun r s' => Reads fold view s s' ∧ r.map Node.host = s.vfs.above n.host ∧
        ∀ p, r = some p → s'.vfs.Has p)
      (fun _ _ => False) s := by
  refine wp_mono (parent_spec hwf n) ?_ fun _ _ h => h
  rintro r s' ⟨⟨hi, hwf'⟩, hr⟩
  refine ⟨hi.reads hwf', ?_, ?_⟩
  · rw [VFS.above, ← hwf.volume_of_has hn]
    cases r with
    | none => rw [if_pos hr]; rfl
    | some p => rw [if_neg hr.1, Option.map_some, hr.2.1]
  · rintro p rfl
    exact hr.2.2

/-- The paths of the nodes that a lookup selects. -/
theorem Listed.named_hosts {n : Node} {listed : List Node} (hl : Listed fold view s s' n listed)
    (hreads : Reads fold view s s') (name : Str) :
    (listed.filter fun m => decide (fold (s'.vfs.nodeName m) = fold name)).map Node.host =
      (listed.map Node.host).filter fun q => decide (fold (s.vfs.pathName q) = fold name) := by
  rw [List.filter_map]
  refine congrArg _ (List.filter_congr fun m hm => ?_)
  rw [nodeName_of_has hl.wf (hl.wf.listed hl.cache_self m hm), hreads.pathName]
  rfl

/-- The head of a lookup by name is the first entry with that name. -/
theorem childrenNamed_first (hwf : s.vfs.WF fold) {n : Node} (hn : s.vfs.Has n) (name : Str) :
    wp (childrenNamed fold view n name)
      (fun r s' => Reads fold view s s' ∧
        r.head?.map Node.host = s.first fold view n.host name ∧ ∀ m ∈ r, s'.vfs.Has m)
      (fun e s' => s' = s ∧ e.isNotFound = false ∧ s.listed fold view n.host = [] ∧
        ¬ view.Listable) s := by
  refine wp_mono (childrenNamed_spec hwf n name) ?_ ?_
  · rintro r s' ⟨listed, hl, rfl⟩
    have hreads := hl.reads hwf hn
    have hhas : ∀ m ∈ listed, s'.vfs.Has m := hl.wf.listed hl.cache_self
    refine ⟨hreads, ?_, fun m hm => hhas m (List.mem_of_mem_filter hm)⟩
    rw [← List.head?_map, hl.named_hosts hreads, List.head?_filter, hl.hosts hwf hn]
    rfl
  · rintro e s' ⟨rfl, he, hc, hd, err, herr⟩
    refine ⟨rfl, he, ?_, fun hlist => ?_⟩
    · rw [Registry.listed, ← hwf.key_of_has hn, hc]
      dsimp only
      rw [if_pos hd, herr]
    · obtain ⟨names, hnames⟩ := hlist n.host hd
      rw [herr] at hnames
      cases hnames

/-- What the code does for a walk that ends in `hfsEnd`: it finds the node, or it raises `NotFound`
for a missing component and another `HostError` above a root or where the host lists nothing. -/
structure Ends (fold : Str → Str) (view : HostView) (s s' : Registry) (e : Exc)
    (hfsEnd : HfsEnd) : Prop where
  reads : Reads fold view s s'
  not_found : ∀ p, hfsEnd ≠ .found p
  missing : e.isNotFound = true → hfsEnd = .missing
  above : e.isNotFound = false → view.Listable → hfsEnd = .aboveRoot

theorem Ends.of_reads {e : Exc} {hfsEnd : HfsEnd} (h : Reads fold view s s')
    (h' : Ends fold view s' s'' e hfsEnd) : Ends fold view s s'' e hfsEnd :=
  ⟨h.trans h'.reads, h'.not_found, h'.missing, h'.above⟩

/-- **The loop over the components is the walk.** -/
theorem walkNodes_spec (rest : List Str) {n : Node} (hwf : s.vfs.WF fold) (hn : s.vfs.Has n) :
    wp (walkNodes fold view n rest)
      (fun m s' => Reads fold view s s' ∧ s'.vfs.Has m ∧
        s.hfsWalk fold view n.host rest = .found m.host)
      (fun e s' => Ends fold view s s' e (s.hfsWalk fold view n.host rest)) s := by
  induction rest generalizing s n with
  | nil => exact ⟨.refl hwf, hn, rfl⟩
  | cons component rest ih =>
    rw [walkNodes, Registry.hfsWalk]
    by_cases hdot : component = ['.'] ∨ component = []
    · rw [if_pos hdot, if_pos hdot]
      exact ih hwf hn
    rw [if_neg hdot, if_neg hdot]
    -- What follows is the walk from `m`, whose meaning is that from the state before.
    have hnext : ∀ {s₁ : Registry} {m : Node}, Reads fold view s s₁ → s₁.vfs.Has m →
        wp (walkNodes fold view m rest)
          (fun m' s' => Reads fold view s s' ∧ s'.vfs.Has m' ∧
            s.hfsWalk fold view m.host rest = .found m'.host)
          (fun e s' => Ends fold view s s' e (s.hfsWalk fold view m.host rest)) s₁ := by
      intro s₁ m hr hm
      rw [← hr.hfsWalk]
      exact wp_mono (ih hr.wf hm) (fun _ _ h => ⟨hr.trans h.1, h.2⟩)
        fun _ _ h => h.of_reads hr
    by_cases hup : component = ['.', '.']
    · rw [if_pos hup, if_pos hup, wp_bind]
      refine wp_mono (parent_above view hwf hn) ?_ fun _ _ h => h.elim
      rintro r s₁ ⟨hr, habove, hhas⟩
      rw [← habove]
      cases r with
      | none =>
        exact ⟨hr, fun p h => (by cases h), fun h => (by cases h), fun _ _ => rfl⟩
      | some p => exact hnext hr (hhas p rfl)
    · rw [if_neg hup, if_neg hup, wp_bind]
      refine wp_mono (childrenNamed_first hwf hn component) ?_ ?_
      · rintro r s₁ ⟨hr, hfirst, hhas⟩
        rw [← hfirst]
        cases r with
        | nil =>
          exact ⟨hr, fun p h => (by cases h), fun _ => rfl, fun h => (by cases h)⟩
        | cons m r => exact hnext hr (hhas m List.mem_cons_self)
      · rintro e s₁ ⟨rfl, he, hempty, hlist⟩
        rw [Registry.first, hempty]
        exact ⟨.refl hwf, fun p h => (by cases h), fun h => (by rw [he] at h; cases h),
          fun _ h => absurd h hlist⟩

theorem climb_congr {v v' : VFS} (h : v'.above = v.above) (steps : Nat) (p : Path) :
    v'.climb steps p = v.climb steps p := by
  induction steps generalizing p with
  | zero => rfl
  | succ steps ih =>
    have hclimb : v'.climb steps = v.climb steps := funext ih
    rw [VFS.climb, VFS.climb, h, hclimb]

/-- **The loop over the colons is the climb.** -/
theorem climbNodes_spec (steps : Nat) {n : Node} (hwf : s.vfs.WF fold) (hn : s.vfs.Has n) :
    wp (climbNodes steps n)
      (fun m s' => Reads fold view s s' ∧ s'.vfs.Has m ∧ s.vfs.climb steps n.host = some m.host)
      (fun e s' => Reads fold view s s' ∧ e.isNotFound = false ∧
        s.vfs.climb steps n.host = none) s := by
  induction steps generalizing s n with
  | zero => exact ⟨.refl hwf, hn, rfl⟩
  | succ steps ih =>
    rw [climbNodes, wp_bind, VFS.climb]
    refine wp_mono (parent_above view hwf hn) ?_ fun _ _ h => h.elim
    rintro r s₁ ⟨hr, habove, hhas⟩
    rw [← habove]
    cases r with
    | none => exact ⟨hr, rfl, rfl⟩
    | some p =>
      have hclimb : s₁.vfs.climb steps p.host = s.vfs.climb steps p.host :=
        climb_congr hr.above steps p.host
      show wp (climbNodes steps p) _ _ s₁
      rw [Option.map_some, Option.bind_some, ← hclimb]
      exact hr.wp_trans (ih hr.wf (hhas p rfl))

/-- The start of a path. -/
theorem startNode_spec (hwf : s.vfs.WF fold) {path : Str} {cwd : Option Node} (hpath : path ≠ [])
    (hcwd : ∀ n, cwd = some n → s.vfs.Has n) :
    wp (startNode fold view path cwd)
      (fun m s' => Reads fold view s s' ∧ s'.vfs.Has m ∧
        s.vfs.hfsStart fold view path (cwd.map Node.host) = some m.host)
      (fun e s' => Reads fold view s s' ∧ e.isNotFound = false ∧
        s.vfs.hfsStart fold view path (cwd.map Node.host) = none) s := by
  simp only [startNode, if_neg hpath, VFS.hfsStart]
  split
  · cases cwd with
    | none => exact ⟨.refl hwf, rfl, rfl⟩
    | some n => exact climbNodes_spec _ hwf (hcwd n rfl)
  · cases volumeNamed fold (hfsFirst path) with
    | none => exact ⟨.refl hwf, rfl, rfl⟩
    | some volume =>
      simp only [wp_bind, wp_get]
      refine wp_mono (node_spec hwf (s.vfs.root volume)) ?_ fun _ _ h => h.elim
      rintro m s' ⟨⟨hi, hwf'⟩, hhost, hhas⟩
      exact ⟨hi.reads hwf', hhas, by rw [hhost]; rfl⟩

/-- What `resolve_hfs` is to find: the end of the walk from the start. -/
def Registry.hfsEnd (fold : Str → Str) (view : HostView) (s : Registry) (path : Str)
    (cwd : Option Path) : Option HfsEnd :=
  (s.vfs.hfsStart fold view path cwd).map fun p => s.hfsWalk fold view p (hfsComponents path)

/-- What a path means does not change while paths are read. -/
theorem Reads.hfsEnd (h : Reads fold view s s') (path : Str) (cwd : Option Path) :
    s'.hfsEnd fold view path cwd = s.hfsEnd fold view path cwd := by
  have hstart : s'.vfs.hfsStart fold view path cwd = s.vfs.hfsStart fold view path cwd := by
    unfold VFS.hfsStart
    have hclimb : s'.vfs.climb (leadingColons path - 1) = s.vfs.climb (leadingColons path - 1) :=
      funext fun p => climb_congr h.above _ p
    rw [hclimb, root_congr h.buildRoot]
  unfold Registry.hfsEnd
  rw [hstart]
  congr 1
  funext p
  exact h.hfsWalk p _

/-- **`resolve_hfs` finds what the path means.** -/
theorem resolveHfs_spec (hwf : s.vfs.WF fold) {path : Str} {cwd : Option Node}
    (hpath : path ≠ []) (hcwd : ∀ n, cwd = some n → s.vfs.Has n) :
    wp (resolveHfs fold view path cwd)
      (fun m s' => Reads fold view s s' ∧ s'.vfs.Has m ∧
        s.hfsEnd fold view path (cwd.map Node.host) = some (.found m.host))
      (fun e s' => Reads fold view s s' ∧
        (∀ p, s.hfsEnd fold view path (cwd.map Node.host) ≠ some (.found p)) ∧
        (e.isNotFound = true → s.hfsEnd fold view path (cwd.map Node.host) = some .missing) ∧
        (e.isNotFound = false → view.Listable →
          s.hfsEnd fold view path (cwd.map Node.host) = none ∨
            s.hfsEnd fold view path (cwd.map Node.host) = some .aboveRoot)) s := by
  rw [resolveHfs, wp_bind]
  refine wp_mono (startNode_spec hwf hpath hcwd) ?_ ?_
  · rintro m s₁ ⟨hr, hhas, hstart⟩
    have hend : s.hfsEnd fold view path (cwd.map Node.host) =
        some (s₁.hfsWalk fold view m.host (hfsComponents path)) := by
      rw [Registry.hfsEnd, hstart, hr.hfsWalk]
      rfl
    rw [hend]
    refine wp_mono (walkNodes_spec (hfsComponents path) hr.wf hhas) (fun m' s₂ h => ?_) ?_
    · exact ⟨hr.trans h.1, h.2.1, congrArg some h.2.2⟩
    · intro e s₂ h
      refine ⟨hr.trans h.reads, fun p hp => h.not_found p (Option.some.inj hp), ?_, ?_⟩
      · exact fun he => congrArg some (h.missing he)
      · exact fun he hl => Or.inr (congrArg some (h.above he hl))
  · rintro e s₁ ⟨hr, he, hstart⟩
    have hend : s.hfsEnd fold view path (cwd.map Node.host) = none := by
      rw [Registry.hfsEnd, hstart]
      rfl
    rw [hend]
    exact ⟨hr, fun p h => (by cases h), fun h => (by rw [he] at h; cases h),
      fun _ _ => Or.inl rfl⟩

end Refinement

end Cwhost.Vfs
