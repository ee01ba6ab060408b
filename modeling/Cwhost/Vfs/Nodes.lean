import Cwhost.Vfs.Host

/-!
# Nodes and listings (`vfs.py`, the reading half of `Node` and `VFS`)

A VFS hands out one node per canonical path, numbered from 2, and caches the listing of each
directory it was asked for. The numbers are also written to a dictionary of the whole process,
`_NODE_BY_ID`: a `Registry` is that dictionary with one VFS.

* `VFS.WF`: the node table is filed by what its nodes say of themselves, and the two listing caches
  agree.
* `intern_spec`, `children_spec`, `invalidate_cache`: what each operation does to the table and to
  the caches. `childrenNamed_eq`: a lookup by name is the filter of the listing.

Source: `vfs.py`, `Node.children`, `Node.children_named`, `VFS.__init__`, `VFS.node`, `_volume_for`,
`invalidate_path`.

Premises: case folding is a function `fold`; a directory that cannot be listed is an `OSError` of
`listdir`, which `children` turns into a `HostError`.

Out of scope: paths that cannot be resolved or stat'ed. `Path.resolve` raises a `RuntimeError` on a
loop of symbolic links, and `Path.is_dir` a `PermissionError` below a directory that can be listed
and not searched; both escape. A `HostView` answers for every path.
-/

namespace Cwhost.Vfs

open Lib

/-- The keys of `_roots`. -/
inductive Volume
  | build
  | host
  deriving DecidableEq, Repr

/-- The name of a volume. -/
def Volume.name : Volume → Str
  | .build => ['B', 'u', 'i', 'l', 'd']
  | .host => ['H', 'o', 's', 't']

/-- `Node`; `vfs` is the identity of the VFS it belongs to. -/
structure Node where
  vfs : Nat
  host : Path
  volume : Volume
  id : Nat
  deriving DecidableEq, Repr

/-- The key of a node: its volume and its canonical path. -/
abbrev NodeKey := Volume × Path

/-- `VFS`: the nodes made so far, by path and by number, and the two caches of its listings. -/
structure VFS where
  ident : Nat
  buildRoot : Path
  nodes : Dict NodeKey Node
  ids : Dict Nat Node
  childrenCache : Dict NodeKey (List Node)
  childrenByNameCache : Dict NodeKey (Dict Str (List Node))
  nextId : Nat

/-- `_roots`. -/
def VFS.root (v : VFS) : Volume → Path
  | .build => v.buildRoot
  | .host => []

/-- `_volume_for`. -/
def VFS.volumeFor (v : VFS) (host : Path) : Volume :=
  if v.buildRoot <:+ host then .build else .host

/-- `Node.name`. -/
def VFS.nodeName (v : VFS) (n : Node) : Str :=
  if n.host = v.root n.volume then [] else n.host.headD []

/-- `_NODE_BY_ID` and one VFS. -/
structure Registry where
  nodeById : Dict Nat Node
  vfs : VFS

/-- A method of `Node` or `VFS`. -/
abbrev VfsM := EStateM Exc Registry

/-- The node `node` would make for a canonical path. -/
def VFS.newNode (v : VFS) (host : Path) : Node := ⟨v.ident, host, v.volumeFor host, v.nextId⟩

/-- File a new node. -/
def Registry.file (s : Registry) (node : Node) : Registry where
  nodeById := s.nodeById.set node.id node
  vfs := { s.vfs with
    nextId := s.vfs.nextId + 1
    nodes := s.vfs.nodes.set (node.volume, node.host) node
    ids := s.vfs.ids.set node.id node }

/-- `node`, for a canonical path. That a path on the Build volume is below its root, which the
source tests again, is what `_volume_for` has just found. -/
def Registry.intern (s : Registry) (host : Path) : Node × Registry :=
  match s.vfs.nodes.get? (s.vfs.volumeFor host, host) with
  | some node => (node, s)
  | none => (s.vfs.newNode host, s.file (s.vfs.newNode host))

/-- A VFS before its first node. -/
def VFS.blank (ident : Nat) (buildRoot : Path) : VFS where
  ident := ident
  buildRoot := buildRoot
  nodes := .empty
  ids := .empty
  childrenCache := .empty
  childrenByNameCache := .empty
  nextId := 2

/-- `VFS.__init__`, for the resolved build root. -/
def Registry.init (nodeById : Dict Nat Node) (ident : Nat) (buildRoot : Path) : Registry :=
  (Registry.intern ⟨nodeById, .blank ident buildRoot⟩ buildRoot).2

/-- `node`, for a canonical path. -/
def internNode (host : Path) : VfsM Node := fun s =>
  let (node, s') := s.intern host
  .ok node s'

/-- `VFS.node`. -/
def node (view : HostView) (hostPath : Path) : VfsM Node := internNode (view.resolve hostPath)

/-- `Node.parent`. The directory of a canonical path is canonical, and a node once made stays in
the table, so that the memo of the source holds what the table does. -/
def parent (n : Node) : VfsM (Option Node) := do
  let s ← get
  if n.host = s.vfs.root n.volume then return none
  let p ← internNode n.host.tail
  return some p

/-- The dictionary of a listing by folded name. -/
def indexByName (fold : Str → Str) (v : VFS) (cached : List Node) : Dict Str (List Node) :=
  cached.foldl
    (fun byName child =>
      let key := fold (v.nodeName child)
      byName.set key ((byName.get? key).getD [] ++ [child]))
    .empty

/-- Store a listing in both caches. -/
def storeListing (fold : Str → Str) (key : NodeKey) (cached : List Node) : VfsM Unit :=
  modify fun s => { s with vfs := { s.vfs with
    childrenCache := s.vfs.childrenCache.set key cached
    childrenByNameCache := s.vfs.childrenByNameCache.set key (indexByName fold s.vfs cached) } }

/-- `Node.children`. -/
def children (fold : Str → Str) (view : HostView) (n : Node) : VfsM (List Node) := do
  let key := (n.volume, n.host)
  match (← get).vfs.childrenCache.get? key with
  | some cached => return cached
  | none =>
    if ¬ view.isDir n.host then do
      storeListing fold key []
      return []
    else
      match view.listdir n.host with
      | .error e =>
        throw (.hostError s!"cannot list {String.ofList (pathText n.host)}: {e.text}")
      | .ok names => do
        let cached ← ((sortedNames fold names).map (· :: n.host)).mapM (node view)
        storeListing fold key cached
        return cached

/-- `Node.children_named`. -/
def childrenNamed (fold : Str → Str) (view : HostView) (n : Node) (name : Str) :
    VfsM (List Node) := do
  let key := (n.volume, n.host)
  if ((← get).vfs.childrenCache.get? key).isNone then
    discard (children fold view n)
  match (← get).vfs.childrenByNameCache.get? key with
  | some byName => return (byName.get? (fold name)).getD []
  | none => throw .keyError

/-- The loop of `invalidate_path`: `host` and its directories, up to the root of its volume. -/
def walkUp (root : Path) : Path → List Path
  | [] => [[]]
  | n :: d => if n :: d = root then [n :: d] else (n :: d) :: walkUp root d

/-- Drop the listings of `key` from both caches. -/
def VFS.drop (v : VFS) (key : NodeKey) : VFS :=
  { v with
    childrenCache := v.childrenCache.erase key
    childrenByNameCache := v.childrenByNameCache.erase key }

/-- `invalidate_path`, for a canonical path. -/
def VFS.invalidate (v : VFS) (host : Path) : VFS :=
  let volume := v.volumeFor host
  (walkUp (v.root volume) host).foldl (fun v p => v.drop (volume, p)) v

/-- `VFS.invalidate_path`. -/
def invalidatePath (view : HostView) (hostPath : Path) : VfsM Unit :=
  modify fun s => { s with vfs := s.vfs.invalidate (view.resolve hostPath) }

/-! ## The node table -/

/-- `n` is the node of its path. -/
def VFS.Has (v : VFS) (n : Node) : Prop := v.nodes.get? (n.volume, n.host) = some n

/-- Nodes are filed under what they say of themselves, numbered below the next number; listings
hold nodes of the table, and the two listing caches agree. -/
structure VFS.WF (fold : Str → Str) (v : VFS) : Prop where
  key : ∀ {k n}, v.nodes.get? k = some n → k = (n.volume, n.host)
  volume : ∀ {k n}, v.nodes.get? k = some n → n.volume = v.volumeFor n.host
  owner : ∀ {k n}, v.nodes.get? k = some n → n.vfs = v.ident
  id_lt : ∀ {k n}, v.nodes.get? k = some n → n.id < v.nextId
  listed : ∀ {k r}, v.childrenCache.get? k = some r → ∀ n ∈ r, v.Has n
  index : ∀ k, v.childrenByNameCache.get? k =
    (v.childrenCache.get? k).map (indexByName fold v)

/-- Nodes were added. -/
structure Grown (s s' : Registry) : Prop where
  ident : s'.vfs.ident = s.vfs.ident
  buildRoot : s'.vfs.buildRoot = s.vfs.buildRoot
  nodes : ∀ {k n}, s.vfs.nodes.get? k = some n → s'.vfs.nodes.get? k = some n

/-- Nodes were added and no listing. -/
structure Interned (s s' : Registry) : Prop extends Grown s s' where
  cache : s'.vfs.childrenCache = s.vfs.childrenCache
  byName : s'.vfs.childrenByNameCache = s.vfs.childrenByNameCache

section Specs

variable {fold : Str → Str} {s s' s'' : Registry} {view : HostView}

theorem Grown.has {n : Node} (h : Grown s s') (hn : s.vfs.Has n) : s'.vfs.Has n := h.nodes hn

theorem Grown.refl (s : Registry) : Grown s s := ⟨rfl, rfl, id⟩

theorem Grown.trans (h : Grown s s') (h' : Grown s' s'') : Grown s s'' where
  ident := h'.ident.trans h.ident
  buildRoot := h'.buildRoot.trans h.buildRoot
  nodes hn := h'.nodes (h.nodes hn)

theorem Interned.refl (s : Registry) : Interned s s := ⟨.refl s, rfl, rfl⟩

theorem Interned.trans (h : Interned s s') (h' : Interned s' s'') : Interned s s'' where
  toGrown := h.toGrown.trans h'.toGrown
  cache := h'.cache.trans h.cache
  byName := h'.byName.trans h.byName

theorem volumeFor_congr {v v' : VFS} (h : v'.buildRoot = v.buildRoot) :
    v'.volumeFor = v.volumeFor := by
  funext host
  rw [VFS.volumeFor, VFS.volumeFor, h]

theorem root_congr {v v' : VFS} (h : v'.buildRoot = v.buildRoot) : v'.root = v.root := by
  funext volume
  cases volume with
  | build => exact h
  | host => rfl

theorem intern_found {host : Path} {n : Node}
    (h : s.vfs.nodes.get? (s.vfs.volumeFor host, host) = some n) : s.intern host = (n, s) := by
  rw [Registry.intern, h]

theorem intern_new {host : Path} (h : s.vfs.nodes.get? (s.vfs.volumeFor host, host) = none) :
    s.intern host = (s.vfs.newNode host, s.file (s.vfs.newNode host)) := by
  rw [Registry.intern, h]

/-- The nodes after filing one. -/
theorem file_nodes {n m : Node} {k : NodeKey} (h : (s.file n).vfs.nodes.get? k = some m) :
    k = (n.volume, n.host) ∧ m = n ∨ k ≠ (n.volume, n.host) ∧ s.vfs.nodes.get? k = some m := by
  change (s.vfs.nodes.set _ _).get? k = some m at h
  rw [Dict.get?_set] at h
  split at h
  · rename_i hk
    exact Or.inl ⟨hk, (Option.some.inj h).symm⟩
  · rename_i hk
    exact Or.inr ⟨hk, h⟩

theorem file_interned {n : Node} (h : s.vfs.nodes.get? (n.volume, n.host) = none) :
    Interned s (s.file n) := by
  refine ⟨⟨rfl, rfl, fun {k m} hm => ?_⟩, rfl, rfl⟩
  have hk : k ≠ (n.volume, n.host) := by
    rintro rfl
    rw [h] at hm
    cases hm
  exact (Dict.get?_set_of_ne _ _ hk).trans hm

theorem file_wf (hwf : s.vfs.WF fold) {host : Path}
    (h : s.vfs.nodes.get? (s.vfs.volumeFor host, host) = none) :
    (s.file (s.vfs.newNode host)).vfs.WF fold where
  key hm := by
    rcases file_nodes hm with ⟨hk, rfl⟩ | ⟨-, hm⟩
    · exact hk
    · exact hwf.key hm
  volume hm := by
    rcases file_nodes hm with ⟨-, rfl⟩ | ⟨-, hm⟩
    · rfl
    · exact hwf.volume hm
  owner hm := by
    rcases file_nodes hm with ⟨-, rfl⟩ | ⟨-, hm⟩
    · rfl
    · exact hwf.owner hm
  id_lt hm := by
    rcases file_nodes hm with ⟨-, rfl⟩ | ⟨-, hm⟩
    · exact Nat.lt_succ_self _
    · exact Nat.lt_succ_of_lt (hwf.id_lt hm)
  listed hr n hn := (file_interned h).has (hwf.listed hr n hn)
  index := hwf.index

/-- What `node` returns and leaves behind. -/
theorem intern_spec (hwf : s.vfs.WF fold) (host : Path) :
    Interned s (s.intern host).2 ∧ (s.intern host).2.vfs.WF fold ∧
      (s.intern host).1.host = host ∧ (s.intern host).2.vfs.Has (s.intern host).1 := by
  cases hn : s.vfs.nodes.get? (s.vfs.volumeFor host, host) with
  | some n =>
    rw [intern_found hn]
    have hkey := hwf.key hn
    refine ⟨.refl s, hwf, (Prod.mk.inj hkey).2.symm, ?_⟩
    show s.vfs.nodes.get? (n.volume, n.host) = some n
    rw [← hkey, hn]
  | none =>
    rw [intern_new hn]
    exact ⟨file_interned hn, file_wf hwf hn, rfl, Dict.get?_set_self _ _ _⟩

theorem node_spec (hwf : s.vfs.WF fold) (hostPath : Path) :
    wp (node view hostPath)
      (fun n s' => (Interned s s' ∧ s'.vfs.WF fold) ∧ n.host = view.resolve hostPath ∧
        s'.vfs.Has n)
      (fun _ _ => False) s := by
  obtain ⟨hi, hwf', hhost, hhas⟩ := intern_spec hwf (view.resolve hostPath)
  exact ⟨⟨hi, hwf'⟩, hhost, hhas⟩

/-- The nodes of a list of paths. -/
theorem nodes_spec (hwf : s.vfs.WF fold) (paths : List Path) :
    wp (paths.mapM (node view))
      (fun r s' => (Interned s s' ∧ s'.vfs.WF fold) ∧ r.map Node.host = paths.map view.resolve ∧
        ∀ n ∈ r, s'.vfs.Has n)
      (fun _ _ => False) s := by
  induction paths generalizing s with
  | nil => exact ⟨⟨.refl s, hwf⟩, rfl, fun _ hn => absurd hn List.not_mem_nil⟩
  | cons p paths ih =>
    rw [List.mapM_cons, wp_bind]
    refine wp_mono (node_spec hwf p) ?_ fun _ _ h => h
    rintro n s₁ ⟨⟨hi₁, hwf₁⟩, hhost, hhas⟩
    rw [wp_bind]
    refine wp_mono (ih hwf₁) ?_ fun _ _ h => h
    rintro r s₂ ⟨⟨hi₂, hwf₂⟩, hhosts, hall⟩
    refine ⟨⟨hi₁.trans hi₂, hwf₂⟩, ?_, fun m hm => ?_⟩
    · rw [List.map_cons, List.map_cons, hhost, hhosts]
    · rcases List.mem_cons.mp hm with rfl | hm
      · exact hi₂.has hhas
      · exact hall m hm

/-! ## Listings -/

/-- `r` is what the host lists for `n`. -/
structure Lists (fold : Str → Str) (view : HostView) (n : Node) (r : List Node) : Prop where
  file : view.isDir n.host = false → r = []
  dir : view.isDir n.host = true → ∃ names, view.listdir n.host = .ok names ∧
    r.map Node.host = (sortedNames fold names).map fun name => view.resolve (name :: n.host)

/-- What `children` leaves behind when it returns `r`. -/
structure Listed (fold : Str → Str) (view : HostView) (s s' : Registry) (n : Node)
    (r : List Node) : Prop extends Grown s s' where
  wf : s'.vfs.WF fold
  cache_self : s'.vfs.childrenCache.get? (n.volume, n.host) = some r
  cache_other : ∀ {k}, k ≠ (n.volume, n.host) →
    s'.vfs.childrenCache.get? k = s.vfs.childrenCache.get? k
  answer : s.vfs.childrenCache.get? (n.volume, n.host) = some r ∨
    s.vfs.childrenCache.get? (n.volume, n.host) = none ∧ Lists fold view n r

theorem storeListing_wf {v : VFS} (hwf : v.WF fold) (key : NodeKey) {r : List Node}
    (hr : ∀ n ∈ r, v.Has n) : VFS.WF fold { v with
      childrenCache := v.childrenCache.set key r
      childrenByNameCache := v.childrenByNameCache.set key (indexByName fold v r) } where
  key := hwf.key
  volume := hwf.volume
  owner := hwf.owner
  id_lt := hwf.id_lt
  listed {k l} hl := by
    change (v.childrenCache.set key r).get? k = some l at hl
    rw [Dict.get?_set] at hl
    split at hl
    · rw [← Option.some.inj hl]
      exact hr
    · exact hwf.listed hl
  index k := by
    show (v.childrenByNameCache.set key _).get? k = ((v.childrenCache.set key r).get? k).map _
    rw [Dict.get?_set, Dict.get?_set]
    split
    · rfl
    · exact hwf.index k

theorem storeListing_spec {s₁ : Registry} {n : Node} {r : List Node} (hi : Interned s s₁)
    (hwf : s₁.vfs.WF fold) (hnone : s.vfs.childrenCache.get? (n.volume, n.host) = none)
    (hr : Lists fold view n r) (hhas : ∀ m ∈ r, s₁.vfs.Has m) :
    wp (storeListing fold (n.volume, n.host) r) (fun _ s' => Listed fold view s s' n r)
      (fun _ _ => False) s₁ where
  ident := hi.ident
  buildRoot := hi.buildRoot
  nodes := hi.nodes
  wf := storeListing_wf hwf (n.volume, n.host) hhas
  cache_self := Dict.get?_set_self _ _ _
  cache_other hk := (Dict.get?_set_of_ne _ _ hk).trans (congrArg (Dict.get? · _) hi.cache)
  answer := Or.inr ⟨hnone, hr⟩

/-- **A listing**: from the cache, or the host's, which is then cached. It fails only when the host
refuses to list a directory that is not cached. -/
theorem children_spec (hwf : s.vfs.WF fold) (n : Node) :
    wp (children fold view n) (fun r s' => Listed fold view s s' n r)
      (fun e s' => s' = s ∧ e.isNotFound = false ∧
        s.vfs.childrenCache.get? (n.volume, n.host) = none ∧
        view.isDir n.host = true ∧ ∃ e, view.listdir n.host = .error e) s := by
  simp only [children, wp_bind, wp_get]
  cases hc : s.vfs.childrenCache.get? (n.volume, n.host) with
  | some r => exact ⟨.refl s, hwf, hc, fun _ => rfl, Or.inl hc⟩
  | none =>
    by_cases hd : view.isDir n.host = true
    · simp only [if_neg (not_not.mpr hd)]
      cases hl : view.listdir n.host with
      | error e => exact ⟨rfl, rfl, trivial, hd, e, rfl⟩
      | ok names =>
        simp only [wp_bind]
        refine wp_mono (nodes_spec hwf _) (fun r s₁ h => ?_) fun _ _ h => h.elim
        obtain ⟨⟨hi, hwf₁⟩, hhosts, hhas⟩ := h
        have hlists : Lists fold view n r := by
          refine ⟨fun h => ?_, fun _ => ⟨names, hl, ?_⟩⟩
          · rw [hd] at h
            cases h
          · rw [hhosts, List.map_map]
            rfl
        exact wp_mono (storeListing_spec hi hwf₁ hc hlists hhas) (fun _ _ h => h)
          fun _ _ h => h.elim
    · simp only [if_pos hd, wp_bind]
      have hlists : Lists fold view n [] := ⟨fun _ => rfl, fun h => absurd h hd⟩
      exact wp_mono (storeListing_spec (.refl s) hwf hc hlists fun m hm => absurd hm
        List.not_mem_nil) (fun _ _ h => h) fun _ _ h => h.elim

theorem indexByName_fold (v : VFS) (key : Str) (l : List Node) (acc : Dict Str (List Node)) :
    ((l.foldl (fun byName child =>
      let key := fold (v.nodeName child)
      byName.set key ((byName.get? key).getD [] ++ [child])) acc).get? key).getD [] =
      (acc.get? key).getD [] ++ l.filter fun n => decide (fold (v.nodeName n) = key) := by
  induction l generalizing acc with
  | nil => exact (List.append_nil _).symm
  | cons n l ih =>
    rw [List.foldl_cons, ih, List.filter_cons]
    dsimp only
    by_cases hk : fold (v.nodeName n) = key
    · rw [hk, Dict.get?_set_self, Option.getD_some, if_pos (decide_eq_true rfl), List.append_assoc]
      rfl
    · rw [Dict.get?_set_of_ne _ _ (Ne.symm hk), decide_eq_false hk]
      rfl

/-- **The index by name** selects from the listing, in its order. -/
theorem indexByName_get (v : VFS) (l : List Node) (key : Str) :
    ((indexByName fold v l).get? key).getD [] =
      l.filter fun n => decide (fold (v.nodeName n) = key) :=
  indexByName_fold v key l .empty

/-- The nodes of a listing whose name is `name` under case folding. -/
def VFS.matching (fold : Str → Str) (v : VFS) (name : Str) (listed : List Node) : List Node :=
  listed.filter fun m => decide (fold (v.nodeName m) = fold name)

theorem matching_congr {v v' : VFS} (h : v'.buildRoot = v.buildRoot) :
    v'.matching fold = v.matching fold := by
  funext name listed
  unfold VFS.matching VFS.nodeName
  rw [root_congr h]

/-- A cached listing is returned as it is. -/
theorem children_cached {n : Node} {listed : List Node}
    (h : s.vfs.childrenCache.get? (n.volume, n.host) = some listed) :
    children fold view n s = .ok listed s := by
  rw [children, bind_of_ok (get_eq s), h]
  rfl

/-- Where a listing is cached a lookup by name selects from it. -/
theorem childrenNamed_cached (hwf : s.vfs.WF fold) {n : Node} {listed : List Node}
    (h : s.vfs.childrenCache.get? (n.volume, n.host) = some listed) (name : Str) :
    childrenNamed fold view n name s = .ok (s.vfs.matching fold name listed) s := by
  have hindex : s.vfs.childrenByNameCache.get? (n.volume, n.host) =
      some (indexByName fold s.vfs listed) := by
    rw [hwf.index, h]
    rfl
  rw [childrenNamed, bind_of_ok (get_eq s), if_neg (by rw [h]; simp)]
  dsimp only
  rw [bind_of_ok (get_eq s), hindex]
  exact congrArg (EStateM.Result.ok · s) (indexByName_get s.vfs listed (fold name))

/-- Where none is cached the directory is listed first, which caches it. -/
theorem childrenNamed_uncached (hwf : s.vfs.WF fold) {n : Node}
    (h : s.vfs.childrenCache.get? (n.volume, n.host) = none) (name : Str) :
    childrenNamed fold view n name s =
      (children fold view n >>= fun _ => childrenNamed fold view n name) s := by
  have hspec : wp (children fold view n) _ _ s := children_spec hwf n
  rw [childrenNamed, bind_of_ok (get_eq s), if_pos (by rw [h]; rfl)]
  cases hc : children fold view n s with
  | error e s₁ => rw [bind_of_error _ hc, bind_of_error _ (discard_of_error hc)]
  | ok listed s₁ =>
    have hcached := (wp_of_ok hspec hc).cache_self
    rw [bind_of_ok hc, bind_of_ok (discard_of_ok hc), bind_of_ok (get_eq s₁),
      if_neg (by rw [hcached]; simp)]

/-- **A lookup by name is the filter of the listing**: the same answer, the same exceptions and the
same state afterwards. -/
theorem childrenNamed_eq (hwf : s.vfs.WF fold) (n : Node) (name : Str) :
    childrenNamed fold view n name s =
      (s.vfs.matching fold name <$> children fold view n) s := by
  rcases Option.eq_none_or_eq_some (s.vfs.childrenCache.get? (n.volume, n.host)) with h | ⟨r, h⟩
  · have hspec : wp (children fold view n) _ _ s := children_spec hwf n
    rw [childrenNamed_uncached hwf h]
    cases hc : children fold view n s with
    | error e s₁ => rw [bind_of_error _ hc, map_of_error _ hc]
    | ok listed s₁ =>
      have hlisted := wp_of_ok hspec hc
      rw [bind_of_ok hc, map_of_ok _ hc, childrenNamed_cached hlisted.wf hlisted.cache_self,
        matching_congr hlisted.buildRoot]
  · rw [childrenNamed_cached hwf h, map_of_ok _ (children_cached h)]

theorem wp_childrenNamed (hwf : s.vfs.WF fold) {n : Node} {name : Str}
    {Q : List Node → Registry → Prop} {E : Exc → Registry → Prop} :
    wp (childrenNamed fold view n name) Q E s ↔
      wp (children fold view n) (fun listed s' => Q (s.vfs.matching fold name listed) s') E s := by
  refine Iff.trans ?_ (wp_map (children fold view n) (s.vfs.matching fold name))
  unfold wp
  rw [childrenNamed_eq hwf]

/-- **A lookup by name** lists the directory and selects from the listing. -/
theorem childrenNamed_spec (hwf : s.vfs.WF fold) (n : Node) (name : Str) :
    wp (childrenNamed fold view n name)
      (fun r s' => ∃ listed, Listed fold view s s' n listed ∧
        r = listed.filter fun m => decide (fold (s'.vfs.nodeName m) = fold name))
      (fun e s' => s' = s ∧ e.isNotFound = false ∧
        s.vfs.childrenCache.get? (n.volume, n.host) = none ∧
        view.isDir n.host = true ∧ ∃ e, view.listdir n.host = .error e) s := by
  refine (wp_childrenNamed hwf).mpr (wp_mono (children_spec hwf n) (fun listed s' h => ?_)
    fun _ _ h => h)
  refine ⟨listed, h, ?_⟩
  rw [← matching_congr h.buildRoot]
  rfl

/-- The parent of a node, unless it is the root of its volume. -/
theorem parent_spec (hwf : s.vfs.WF fold) (n : Node) :
    wp (parent n)
      (fun r s' => (Interned s s' ∧ s'.vfs.WF fold) ∧
        match r with
        | none => n.host = s.vfs.root n.volume
        | some p => n.host ≠ s.vfs.root n.volume ∧ p.host = n.host.tail ∧ s'.vfs.Has p)
      (fun _ _ => False) s := by
  simp only [parent, wp_bind, wp_get]
  split
  · rename_i h
    exact ⟨⟨.refl s, hwf⟩, h⟩
  · rename_i h
    obtain ⟨hi, hwf', hhost, hhas⟩ := intern_spec hwf n.host.tail
    exact ⟨⟨hi, hwf'⟩, h, hhost, hhas⟩

/-! ## Dropping listings -/

/-- The directories of `invalidate_path`. -/
theorem mem_walkUp {root d host : Path} (h : root <:+ host) :
    d ∈ walkUp root host ↔ d <:+ host ∧ root <:+ d := by
  induction host with
  | nil =>
    have hroot := List.suffix_nil.mp h
    rw [walkUp, List.mem_singleton, hroot, List.suffix_nil]
    exact ⟨fun hd => ⟨hd, List.nil_suffix⟩, fun hd => hd.1⟩
  | cons n p ih =>
    rw [walkUp]
    split
    · rename_i hroot
      rw [List.mem_singleton, hroot]
      refine ⟨fun hd => hd ▸ ⟨List.suffix_refl _, List.suffix_refl _⟩, fun hd => ?_⟩
      exact hd.1.eq_of_length_le hd.2.length_le
    · rename_i hroot
      have hp : root <:+ p := (List.suffix_cons_iff.mp h).resolve_left fun he => hroot he.symm
      rw [List.mem_cons, ih hp, List.suffix_cons_iff]
      constructor
      · rintro (rfl | hd)
        · exact ⟨Or.inl rfl, h⟩
        · exact ⟨Or.inr hd.1, hd.2⟩
      · rintro ⟨rfl | hd, hr⟩
        · exact Or.inl rfl
        · exact Or.inr ⟨hd, hr⟩

/-- `invalidate_path` of `host` drops the listing of `d`. -/
def VFS.Dropped (v : VFS) (host d : Path) : Prop := d <:+ host ∧ v.volumeFor d = v.volumeFor host

theorem root_suffix (v : VFS) (host : Path) : v.root (v.volumeFor host) <:+ host := by
  rw [VFS.volumeFor]
  split
  · assumption
  · exact List.nil_suffix

theorem volumeFor_eq_iff {v : VFS} {host d : Path} (hd : d <:+ host) :
    v.volumeFor d = v.volumeFor host ↔ v.root (v.volumeFor host) <:+ d := by
  by_cases h : v.buildRoot <:+ host
  · rw [show v.volumeFor host = .build from if_pos h, VFS.volumeFor]
    split
    · rename_i hb
      exact iff_of_true rfl hb
    · rename_i hb
      exact iff_of_false (by decide) hb
  · have hdn : ¬ v.buildRoot <:+ d := fun hb => h (hb.trans hd)
    rw [show v.volumeFor host = .host from if_neg h, VFS.volumeFor, if_neg hdn]
    exact iff_of_true rfl List.nil_suffix

/-- Only listings have changed, those of `keys` being gone. -/
structure Droppings (v v' : VFS) (keys : List NodeKey) : Prop where
  eq : v' = { v with
    childrenCache := v'.childrenCache, childrenByNameCache := v'.childrenByNameCache }
  cache : ∀ k, v'.childrenCache.get? k = if k ∈ keys then none else v.childrenCache.get? k
  byName : ∀ k, v'.childrenByNameCache.get? k =
    if k ∈ keys then none else v.childrenByNameCache.get? k

theorem drop_droppings (volume : Volume) (ps : List Path) (v : VFS) :
    Droppings v (ps.foldl (fun v p => v.drop (volume, p)) v) (ps.map fun p => (volume, p)) := by
  induction ps generalizing v with
  | nil => exact ⟨rfl, fun _ => rfl, fun _ => rfl⟩
  | cons p ps ih =>
    have ih := ih (v.drop (volume, p))
    refine ⟨ih.eq, fun k => ?_, fun k => ?_⟩
    · rw [List.foldl_cons, ih.cache, List.map_cons]
      show (if _ then none else (v.childrenCache.erase _).get? k) = _
      rw [Dict.get?_erase]
      simp only [List.mem_cons]
      split <;> split <;> simp_all
    · rw [List.foldl_cons, ih.byName, List.map_cons]
      show (if _ then none else (v.childrenByNameCache.erase _).get? k) = _
      rw [Dict.get?_erase]
      simp only [List.mem_cons]
      split <;> split <;> simp_all

/-- `invalidate_path` leaves the node table alone and keeps the caches in step. -/
theorem invalidate_wf {v : VFS} (hwf : v.WF fold) (host : Path) : (v.invalidate host).WF fold := by
  have hd := drop_droppings (v.volumeFor host) (walkUp (v.root (v.volumeFor host)) host) v
  change Droppings v (v.invalidate host) _ at hd
  rw [hd.eq]
  refine ⟨hwf.key, hwf.volume, hwf.owner, hwf.id_lt, fun {k r} hr => ?_, fun k => ?_⟩
  · change (v.invalidate host).childrenCache.get? k = some r at hr
    rw [hd.cache] at hr
    split at hr
    · cases hr
    · exact hwf.listed hr
  · show (v.invalidate host).childrenByNameCache.get? k =
      ((v.invalidate host).childrenCache.get? k).map _
    rw [hd.cache, hd.byName, hwf.index]
    split <;> rfl

theorem invalidate_eq (v : VFS) (host : Path) :
    v.invalidate host = { v with
      childrenCache := (v.invalidate host).childrenCache
      childrenByNameCache := (v.invalidate host).childrenByNameCache } :=
  (drop_droppings _ _ v).eq

/-- **Which listings `invalidate_path` drops.** -/
theorem invalidate_cache (v : VFS) (host d : Path) [Decidable (v.Dropped host d)] :
    (v.invalidate host).childrenCache.get? (v.volumeFor d, d) =
      if v.Dropped host d then none else v.childrenCache.get? (v.volumeFor d, d) := by
  have hc := (drop_droppings (v.volumeFor host) (walkUp (v.root (v.volumeFor host)) host) v).cache
    (v.volumeFor d, d)
  have hmem : (v.volumeFor d, d) ∈
      (walkUp (v.root (v.volumeFor host)) host).map (fun p => (v.volumeFor host, p)) ↔
      v.Dropped host d := by
    rw [List.mem_map]
    constructor
    · rintro ⟨p, hp, hpd⟩
      obtain ⟨hvol, rfl⟩ := Prod.mk.inj hpd
      exact ⟨((mem_walkUp (root_suffix v host)).mp hp).1, hvol.symm⟩
    · rintro ⟨hs, hvol⟩
      refine ⟨d, (mem_walkUp (root_suffix v host)).mpr ⟨hs, ?_⟩, by rw [hvol]⟩
      exact (volumeFor_eq_iff hs).mp hvol
  refine hc.trans ?_
  by_cases h : v.Dropped host d
  · rw [if_pos h, if_pos (hmem.mpr h)]
  · rw [if_neg h, if_neg fun hm => h (hmem.mp hm)]

/-! ## What filing a node keeps -/

/-- `P` survives filing the next node, and it is not about the listings. -/
structure Filing (fold : Str → Str) (P : Registry → Prop) : Prop where
  intern : ∀ {s : Registry}, s.vfs.WF fold → P s → ∀ host, P (s.intern host).2
  listings : ∀ {s s' : Registry}, P s → s'.nodeById = s.nodeById → s'.vfs.nodes = s.vfs.nodes →
    s'.vfs.ids = s.vfs.ids → P s'

namespace Filing

variable {P : Registry → Prop}

theorem parent (h : Filing fold P) (hwf : s.vfs.WF fold) (hs : P s) (n : Node) :
    wp (Vfs.parent n) (fun _ s' => P s') (fun _ _ => False) s := by
  simp only [Vfs.parent, wp_bind, wp_get]
  split
  · exact hs
  · exact h.intern hwf hs n.host.tail

theorem nodes (h : Filing fold P) (hwf : s.vfs.WF fold) (hs : P s) (paths : List Path) :
    wp (paths.mapM (node view)) (fun _ s' => P s') (fun _ _ => False) s := by
  induction paths generalizing s with
  | nil => exact hs
  | cons p paths ih =>
    have hwf' := (intern_spec hwf (view.resolve p)).2.1
    have hs' := h.intern hwf hs (view.resolve p)
    rw [List.mapM_cons, wp_bind]
    show wp (paths.mapM (node view) >>= _) _ _ (s.intern (view.resolve p)).2
    rw [wp_bind]
    exact wp_mono (ih hwf' hs') (fun _ _ h => h) fun _ _ h => h

theorem children (h : Filing fold P) (hwf : s.vfs.WF fold) (hs : P s) (n : Node) :
    wp (Vfs.children fold view n) (fun _ s' => P s') (fun _ s' => P s') s := by
  simp only [Vfs.children, wp_bind, wp_get]
  cases s.vfs.childrenCache.get? (n.volume, n.host) with
  | some r => exact hs
  | none =>
    by_cases hd : view.isDir n.host = true
    · simp only [if_neg (not_not.mpr hd)]
      cases view.listdir n.host with
      | error e => exact hs
      | ok names =>
        simp only [wp_bind]
        exact wp_mono (h.nodes hwf hs _) (fun r s₁ h₁ => h.listings h₁ rfl rfl rfl)
          fun _ _ h => h.elim
    · simp only [if_pos hd, wp_bind]
      exact h.listings hs rfl rfl rfl

theorem childrenNamed (h : Filing fold P) (hwf : s.vfs.WF fold) (hs : P s) (n : Node)
    (name : Str) :
    wp (Vfs.childrenNamed fold view n name) (fun _ s' => P s') (fun _ s' => P s') s :=
  (wp_childrenNamed hwf).mpr (h.children hwf hs n)

theorem invalidate (h : Filing fold P) (hs : P s) (host : Path) :
    P { s with vfs := s.vfs.invalidate host } := by
  have hnodes : (s.vfs.invalidate host).nodes = s.vfs.nodes := by rw [invalidate_eq]
  have hids : (s.vfs.invalidate host).ids = s.vfs.ids := by rw [invalidate_eq]
  exact h.listings hs rfl hnodes hids

end Filing

/-! ## The first state -/

theorem blank_wf (ident : Nat) (buildRoot : Path) : (VFS.blank ident buildRoot).WF fold where
  key h := by cases h
  volume h := by cases h
  owner h := by cases h
  id_lt h := by cases h
  listed h := by cases h
  index _ := rfl

theorem init_spec (fold : Str → Str) (nodeById : Dict Nat Node) (ident : Nat)
    (buildRoot : Path) :
    Interned ⟨nodeById, .blank ident buildRoot⟩ (Registry.init nodeById ident buildRoot) ∧
      (Registry.init nodeById ident buildRoot).vfs.WF fold := by
  obtain ⟨hi, hwf, -⟩ := intern_spec (s := ⟨nodeById, .blank ident buildRoot⟩)
    (blank_wf ident buildRoot) buildRoot
  exact ⟨hi, hwf⟩

end Specs

end Cwhost.Vfs
