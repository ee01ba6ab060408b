import Cwhost.Vfs.Addresses

/-!
# The entries of a directory (`vfs.py`, `Node.children_named`)

Over a host that does not change, a listing that is cached is what the host lists. The entries of a
directory are then known by the names of their nodes, which need not be their own: a symbolic link
has the name of what it leads to, and the root of a volume has none.

* `Registry.Steady`: what holds in every state that reading such a host reaches
  (`Reached.steady`).
* `childrenNamed_named`: a lookup by name selects from the listing.
* `childrenNamed_entry_iff`: exactly when an entry is found under its own name.
-/

namespace Cwhost.Vfs

open Lib

/-- What the host lists for a directory, in the order of `children`; nothing if it refuses. -/
def hostEntries (fold : Str → Str) (view : HostView) (p : Path) : Option (List Path) :=
  if view.isDir p then
    match view.listdir p with
    | .ok names => some ((sortedNames fold names).map fun name => view.resolve (name :: p))
    | .error _ => none
  else some []

/-- Those of them whose node has a name. -/
def VFS.entriesNamed (fold : Str → Str) (view : HostView) (v : VFS) (p : Path) (name : Str) :
    Option (List Path) :=
  (hostEntries fold view p).map fun l =>
    l.filter fun q => decide (fold (v.pathName q) = fold name)

/-- The state of a VFS over a host that does not change. -/
structure Registry.Steady (fold : Str → Str) (view : HostView) (s : Registry) : Prop where
  wf : s.vfs.WF fold
  ids : s.Ids
  fresh : ∀ p r, s.vfs.childrenCache.get? (s.vfs.volumeFor p, p) = some r →
    hostEntries fold view p = some (r.map Node.host)

section Steady

variable {fold : Str → Str} {view : HostView} {s s' : Registry}

theorem hostEntries_file {p : Path} (h : view.isDir p = false) :
    hostEntries fold view p = some [] := by
  unfold hostEntries
  rw [h]
  rfl

theorem hostEntries_dir {p : Path} (h : view.isDir p = true) {names : List Str}
    (hnames : view.listdir p = .ok names) : hostEntries fold view p =
      some ((sortedNames fold names).map fun name => view.resolve (name :: p)) := by
  unfold hostEntries
  rw [if_pos h, hnames]

theorem hostEntries_refused {p : Path} (h : view.isDir p = true) {e : OsError}
    (herr : view.listdir p = .error e) : hostEntries fold view p = none := by
  unfold hostEntries
  rw [if_pos h, herr]

/-- A host that lists all its directories refuses nothing. -/
theorem hostEntries_listable (h : view.Listable) (p : Path) :
    ∃ l, hostEntries fold view p = some l := by
  by_cases hd : view.isDir p = true
  · obtain ⟨names, hnames⟩ := h p hd
    exact ⟨_, hostEntries_dir hd hnames⟩
  · exact ⟨[], hostEntries_file (Bool.eq_false_iff.mpr hd)⟩

theorem Lists.hostEntries {n : Node} {r : List Node} (h : Lists fold view n r) :
    Vfs.hostEntries fold view n.host = some (r.map Node.host) := by
  by_cases hd : view.isDir n.host = true
  · obtain ⟨names, hnames, hhosts⟩ := h.dir hd
    rw [hostEntries_dir hd hnames, hhosts]
  · have hfile := Bool.eq_false_iff.mpr hd
    rw [hostEntries_file hfile, h.file hfile]
    rfl

/-- Over a tree the entries of a directory are what the tree holds there. -/
theorem mem_hostEntries {env : HostEnv} {t : Tree} {p q : Path} {entries : List Path}
    (h : hostEntries fold (t.view env) p = some entries) :
    q ∈ entries ↔ ∃ name, q = name :: p ∧ t.has q = true := by
  have hentries : entries = Vfs.listing fold t p := by
    unfold hostEntries at h
    unfold Vfs.listing
    split at h
    · rename_i hd
      have hd' : t.isDir p = true := hd
      rw [if_pos hd']
      cases hnames : (t.view env).listdir p with
      | error e =>
        rw [hnames] at h
        cases h
      | ok names =>
        rw [hnames] at h
        rw [← Option.some.inj h, Tree.view_listdir_ok hd hnames]
        rfl
    · rename_i hd
      have hd' : ¬ t.isDir p = true := hd
      rw [if_neg hd', ← Option.some.inj h]
  have hmem : ∀ name, name ∈ sortedNames fold (t.names p) ↔ t.has (name :: p) = true :=
    fun name => (List.mem_insertionSort _).trans DirTree.mem_names
  rw [hentries, listing_eq, List.mem_map]
  constructor
  · rintro ⟨name, hname, rfl⟩
    exact ⟨name, rfl, (hmem name).mp hname⟩
  · rintro ⟨name, rfl, hhas⟩
    exact ⟨name, (hmem name).mpr hhas, rfl⟩

/-- What a steady VFS shows of a directory is what the host lists. -/
theorem Registry.Steady.listed (h : s.Steady fold view) (p : Path) :
    s.listed fold view p = (hostEntries fold view p).getD [] := by
  unfold Registry.listed
  cases hc : s.vfs.childrenCache.get? (s.vfs.volumeFor p, p) with
  | some r =>
    rw [h.fresh p r hc]
    rfl
  | none =>
    unfold hostEntries
    dsimp only
    split
    · cases view.listdir p <;> rfl
    · rfl

theorem entriesNamed_congr {v v' : VFS} (h : v'.pathName = v.pathName) :
    v'.entriesNamed fold view = v.entriesNamed fold view := by
  funext p name
  unfold VFS.entriesNamed
  rw [h]

/-- New nodes only. -/
theorem Registry.Steady.interned (h : s.Steady fold view) (hi : Interned s s')
    (hwf : s'.vfs.WF fold) (hids : s'.Ids) : s'.Steady fold view := by
  refine ⟨hwf, hids, fun p r hr => ?_⟩
  rw [hi.cache, volumeFor_congr hi.buildRoot] at hr
  exact h.fresh p r hr

/-- A listing. -/
theorem Registry.Steady.listing (h : s.Steady fold view) {n : Node} {r : List Node}
    (hl : Listed fold view s s' n r) (hn : s.vfs.Has n) (hids : s'.Ids) :
    s'.Steady fold view ∧ hostEntries fold view n.host = some (r.map Node.host) := by
  have hself : hostEntries fold view n.host = some (r.map Node.host) := by
    rcases hl.answer with hc | ⟨-, hlists⟩
    · exact h.fresh n.host r (by rw [← h.wf.key_of_has hn, hc])
    · exact hlists.hostEntries
  refine ⟨⟨hl.wf, hids, fun p r' hr => ?_⟩, hself⟩
  rw [volumeFor_congr hl.buildRoot] at hr
  by_cases hp : (s.vfs.volumeFor p, p) = (n.volume, n.host)
  · rw [hp, hl.cache_self] at hr
    obtain ⟨-, rfl⟩ := Prod.mk.inj hp
    rw [← Option.some.inj hr]
    exact hself
  · rw [hl.cache_other hp] at hr
    exact h.fresh p r' hr

/-- **`children` lists the directory**, and fails only where the host refuses that. -/
theorem children_entries (hs : s.Steady fold view) {n : Node} (hn : s.vfs.Has n) :
    wp (Vfs.children fold view n)
      (fun r s' => (Reads fold view s s' ∧ s'.Steady fold view) ∧
        hostEntries fold view n.host = some (r.map Node.host))
      (fun _ s' => s' = s ∧ hostEntries fold view n.host = none) s := by
  have hchildren := wp_and (@children_spec fold s view hs.wf n)
    ((ids_filing fold).children hs.wf hs.ids n)
  refine wp_mono hchildren ?_ ?_
  · rintro r s' ⟨hl, hids⟩
    obtain ⟨hsteady, hentries⟩ := hs.listing hl hn hids
    exact ⟨⟨hl.reads hs.wf hn, hsteady⟩, hentries⟩
  · rintro e s' ⟨⟨rfl, -, -, hd, err, herr⟩, -⟩
    exact ⟨rfl, hostEntries_refused hd herr⟩

theorem init_steady (fold : Str → Str) (view : HostView) (nodeById : Dict Nat Node) (ident : Nat)
    (buildRoot : Path) : (Registry.init nodeById ident buildRoot).Steady fold view := by
  have hblank : (Registry.mk nodeById (.blank ident buildRoot)).Ids := fun n hn => by cases hn
  have hblank_wf : (VFS.blank ident buildRoot).WF fold := blank_wf ident buildRoot
  obtain ⟨hi, hwf⟩ := init_spec fold nodeById ident buildRoot
  refine ⟨hwf, intern_ids hblank_wf hblank buildRoot, fun p r hr => ?_⟩
  rw [hi.cache] at hr
  cases hr

theorem invalidate_steady (hs : s.Steady fold view) (host : Path) :
    Registry.Steady fold view { s with vfs := s.vfs.invalidate host } := by
  have heq := invalidate_eq s.vfs host
  have hbuild : (s.vfs.invalidate host).buildRoot = s.vfs.buildRoot := by rw [heq]
  refine ⟨invalidate_wf hs.wf host, fun m hm => ?_, fun p r hr => ?_⟩
  · have hhas : s.vfs.Has m := by
      unfold VFS.Has at hm ⊢
      rwa [heq] at hm
    show (s.vfs.invalidate host).ids.get? m.id = some m
    rw [heq]
    exact hs.ids m hhas
  · classical
    change (s.vfs.invalidate host).childrenCache.get? _ = some r at hr
    rw [volumeFor_congr hbuild, invalidate_cache] at hr
    split at hr
    · cases hr
    · exact hs.fresh p r hr

/-- Reading keeps a VFS steady, and its nodes. -/
theorem ReadStep.steady (hs : s.Steady fold view) (step : ReadStep)
    (owned : ∀ n, step = .children n → s.vfs.Has n) :
    (endState (step.run fold view s)).Steady fold view ∧
      ∀ m, s.vfs.Has m → (endState (step.run fold view s)).vfs.Has m := by
  cases step with
  | node path =>
    obtain ⟨hi, hwf, -, -⟩ := intern_spec hs.wf (view.resolve path)
    exact ⟨hs.interned hi hwf (intern_ids hs.wf hs.ids (view.resolve path)), fun m hm => hi.has hm⟩
  | children n =>
    refine wp_endState (x := discard (Vfs.children fold view n))
      (I := fun s' : Registry => s'.Steady fold view ∧ ∀ m, s.vfs.Has m → s'.vfs.Has m)
      (wp_discard.mpr ?_)
    refine wp_mono (children_entries hs (owned n rfl)) ?_ ?_
    · rintro r s' ⟨⟨hr, hs'⟩, -⟩
      exact ⟨hs', fun m hm => hr.has hm⟩
    · rintro e s' ⟨rfl, -⟩
      exact ⟨hs, fun m hm => hm⟩
  | invalidate path =>
    refine ⟨invalidate_steady hs (view.resolve path), fun m hm => ?_⟩
    have heq := invalidate_eq s.vfs (view.resolve path)
    show (s.vfs.invalidate (view.resolve path)).Has m
    unfold VFS.Has at hm ⊢
    rwa [heq]

/-- **Every state that reading reaches is steady.** -/
theorem Reached.steady {nodeById : Dict Nat Node} {ident : Nat} {buildRoot : Path}
    (h : Reached fold view nodeById ident buildRoot s) : s.Steady fold view := by
  induction h with
  | init => exact init_steady fold view nodeById ident buildRoot
  | step _ step owned ih => exact (step.steady ih owned).1

/-- `parent` keeps the VFS steady. -/
theorem parent_steady (hs : s.Steady fold view) {n : Node} (hn : s.vfs.Has n) :
    wp (parent n)
      (fun r s' => (Reads fold view s s' ∧ s'.Steady fold view) ∧
        r.map Node.host = s.vfs.above n.host ∧ ∀ p, r = some p → s'.vfs.Has p)
      (fun _ _ => False) s := by
  refine wp_mono (wp_and (wp_and (parent_spec hs.wf n) (parent_above view hs.wf hn))
    ((ids_filing fold).parent hs.wf hs.ids n)) ?_ fun _ _ h => h.1.1
  rintro r s' ⟨⟨⟨⟨hi, hwf⟩, -⟩, hr, habove, hhas⟩, hids⟩
  exact ⟨⟨hr, hs.interned hi hwf hids⟩, habove, hhas⟩

/-- The directory above a path. -/
theorem above_eq_some {v : VFS} {p q : Path} (h : v.above p = some q) : ∃ name, p = name :: q := by
  unfold VFS.above at h
  split at h
  · cases h
  rename_i hroot
  cases p with
  | nil => exact absurd (List.suffix_nil.mp (root_suffix v [])).symm hroot
  | cons name d => exact ⟨name, congrArg (name :: ·) (Option.some.inj h)⟩

/-- A node is known by its number as it is by its path. -/
theorem Registry.Steady.id_eq_iff (hs : s.Steady fold view) {n m : Node} (hn : s.vfs.Has n)
    (hm : s.vfs.Has m) : n.id = m.id ↔ n.host = m.host := by
  constructor
  · intro h
    have hget := hs.ids n hn
    rw [h, hs.ids m hm] at hget
    rw [Option.some.inj hget]
  · intro h
    rw [eq_of_host hs.wf hn hm h]

/-! ## Lookups by name -/

/-- **A lookup by name selects from the listing**, in its order; it fails only where the host
refuses to list the directory. -/
theorem childrenNamed_named (hs : s.Steady fold view) {n : Node} (hn : s.vfs.Has n)
    (name : Str) :
    wp (childrenNamed fold view n name)
      (fun r s' => (Reads fold view s s' ∧ s'.Steady fold view) ∧
        s.vfs.entriesNamed fold view n.host name = some (r.map Node.host) ∧
        ∀ m ∈ r, s'.vfs.Has m ∧ fold (s'.vfs.nodeName m) = fold name)
      (fun _ s' => s' = s ∧ s.vfs.entriesNamed fold view n.host name = none) s := by
  have hnamed := wp_and (@childrenNamed_spec fold s view hs.wf n name)
    ((ids_filing fold).childrenNamed hs.wf hs.ids n name)
  refine wp_mono hnamed ?_ ?_
  · rintro r s' ⟨⟨listed, hl, rfl⟩, hids'⟩
    have hreads := hl.reads hs.wf hn
    have hhas : ∀ m ∈ listed, s'.vfs.Has m := hl.wf.listed hl.cache_self
    obtain ⟨hsteady, hentries⟩ := hs.listing hl hn hids'
    refine ⟨⟨hreads, hsteady⟩, ?_, fun m hm => ?_⟩
    rotate_left
    · obtain ⟨hmem, hfold⟩ := List.mem_filter.mp hm
      exact ⟨hhas m hmem, of_decide_eq_true hfold⟩
    unfold VFS.entriesNamed
    rw [hentries, Option.map_some, hl.named_hosts hreads]
  · rintro e s' ⟨⟨rfl, -, -, hd, err, herr⟩, -⟩
    unfold VFS.entriesNamed
    rw [hostEntries_refused hd herr]
    exact ⟨rfl, rfl⟩

/-- **An entry is found under its own name** exactly when its node has that name. -/
theorem childrenNamed_entry (hs : s.Steady fold view) {d : Node} (hd : s.vfs.Has d)
    (hdir : view.isDir d.host = true) {names : List Str}
    (hnames : view.listdir d.host = .ok names) {n n' : Str} (hn : n ∈ names)
    (hspelling : fold n' = fold n) :
    ∃ found s₁ m s₂, childrenNamed fold view d n' s = .ok found s₁ ∧
      node view (n :: d.host) s₁ = .ok m s₂ ∧
      (m ∈ found ↔ fold (s.vfs.pathName (view.resolve (n :: d.host))) = fold n) := by
  have hentries : hostEntries fold view d.host = _ := hostEntries_dir hdir hnames
  have hrun : wp (childrenNamed fold view d n') (fun r s' =>
      (Reads fold view s s' ∧ s'.Steady fold view) ∧
        s.vfs.entriesNamed fold view d.host n' = some (r.map Node.host) ∧
        ∀ m ∈ r, s'.vfs.Has m ∧ fold (s'.vfs.nodeName m) = fold n') (fun _ _ => False) s := by
    refine wp_mono (childrenNamed_named hs hd n') (fun _ _ h => h) ?_
    rintro e s' ⟨-, hnone⟩
    unfold VFS.entriesNamed at hnone
    rw [hentries] at hnone
    cases hnone
  obtain ⟨found, s₁, hfound, ⟨hr, -⟩, hhosts, hall⟩ := wp_exists_ok hrun
  have hnode := @node_spec fold s₁ view hr.wf (n :: d.host)
  obtain ⟨m, s₂, hm, ⟨hi, hwf₂⟩, hhost, hhas⟩ := wp_exists_ok hnode
  refine ⟨found, s₁, m, s₂, hfound, hm, ?_⟩
  have hnamed : view.resolve (n :: d.host) ∈ found.map Node.host ↔
      fold (s.vfs.pathName (view.resolve (n :: d.host))) = fold n := by
    unfold VFS.entriesNamed at hhosts
    rw [hentries, Option.map_some] at hhosts
    rw [← Option.some.inj hhosts, List.mem_filter, decide_eq_true_eq, hspelling]
    exact and_iff_right (List.mem_map_of_mem ((List.mem_insertionSort _).mpr hn))
  rw [← hnamed, ← hhost]
  constructor
  · exact List.mem_map_of_mem
  · intro hmem
    obtain ⟨m', hm', heq⟩ := List.mem_map.mp hmem
    rwa [← eq_of_host hwf₂ (hi.has (hall m' hm').1) hhas heq]

/-! ## Resolving a path -/

theorem node_steady (hs : s.Steady fold view) (path : Path) :
    wp (node view path) (fun n s' => s'.Steady fold view ∧ s'.vfs.Has n) (fun _ _ => False) s := by
  obtain ⟨hi, hwf, -, hhas⟩ := intern_spec hs.wf (view.resolve path)
  exact ⟨hs.interned hi hwf (intern_ids hs.wf hs.ids (view.resolve path)), hhas⟩

theorem climbNodes_steady (steps : Nat) {n : Node} (hs : s.Steady fold view) (hn : s.vfs.Has n) :
    wp (climbNodes steps n) (fun m s' => s'.Steady fold view ∧ s'.vfs.Has m)
      (fun _ s' => s'.Steady fold view) s := by
  induction steps generalizing s n with
  | zero => exact ⟨hs, hn⟩
  | succ steps ih =>
    rw [climbNodes, wp_bind]
    refine wp_mono (parent_steady hs hn) ?_ fun _ _ h => h.elim
    rintro up s₁ ⟨⟨-, hs₁⟩, -, hhas⟩
    cases up with
    | none => exact hs₁
    | some up => exact ih hs₁ (hhas up rfl)

theorem walkNodes_steady (rest : List Str) {n : Node} (hs : s.Steady fold view)
    (hn : s.vfs.Has n) :
    wp (walkNodes fold view n rest) (fun m s' => s'.Steady fold view ∧ s'.vfs.Has m)
      (fun _ s' => s'.Steady fold view) s := by
  induction rest generalizing s n with
  | nil => exact ⟨hs, hn⟩
  | cons component rest ih =>
    rw [walkNodes]
    split
    · exact ih hs hn
    split
    · rw [wp_bind]
      refine wp_mono (parent_steady hs hn) ?_ fun _ _ h => h.elim
      rintro up s₁ ⟨⟨-, hs₁⟩, -, hhas⟩
      cases up with
      | none => exact hs₁
      | some up => exact ih hs₁ (hhas up rfl)
    · rw [wp_bind]
      refine wp_mono (childrenNamed_named hs hn component) ?_ ?_
      · rintro named s₁ ⟨⟨-, hs₁⟩, -, hhas⟩
        cases named with
        | nil => exact hs₁
        | cons m named => exact ih hs₁ (hhas m List.mem_cons_self).1
      · rintro e s₁ ⟨rfl, -⟩
        exact hs

/-- **`resolve_hfs` keeps the VFS steady.** -/
theorem resolveHfs_steady (hs : s.Steady fold view) (path : Str) {cwd : Option Node}
    (hcwd : ∀ n, cwd = some n → s.vfs.Has n) :
    wp (resolveHfs fold view path cwd) (fun m s' => s'.Steady fold view ∧ s'.vfs.Has m)
      (fun _ s' => s'.Steady fold view) s := by
  have hstart : wp (startNode fold view path cwd)
      (fun m s' => s'.Steady fold view ∧ s'.vfs.Has m) (fun _ s' => s'.Steady fold view) s := by
    unfold startNode
    by_cases hpath : path = []
    · rw [if_pos hpath]
      exact hs
    rw [if_neg hpath]
    show wp (if leadingColons path ≠ 0 then _ else _) _ _ s
    split
    · cases cwd with
      | none => exact hs
      | some n => exact climbNodes_steady _ hs (hcwd n rfl)
    · cases volumeNamed fold (hfsFirst path) with
      | none => exact hs
      | some volume =>
        have hnode := node_steady hs (s.vfs.root volume)
        simp only [wp_bind, wp_get]
        exact wp_mono hnode (fun _ _ h => h) fun _ _ h => h.elim
  unfold resolveHfs
  rw [wp_bind]
  exact wp_mono hstart (fun m s₁ h => walkNodes_steady (hfsComponents path) h.1 h.2)
    fun _ _ h => h

end Steady

/-! ## FSSpecs -/

section Fsspecs

variable {fold : Str → Str} {env : HostEnv} {t : Tree} {s : Registry}

/-- The directory of `n` can be listed. -/
def ParentListed (fold : Str → Str) (view : HostView) (v : VFS) (n : Node) : Prop :=
  ∀ d, v.above n.host = some d → (hostEntries fold view d).isSome = true

/-- **The name of an existing node** leads to it from its directory, if that can be listed. -/
theorem walkFsspec_entry (hfold : CaseFolding fold) (hrule : NamingRule fold t)
    (hs : s.Steady fold (t.view env)) {n p : Node} (hn : s.vfs.Has n)
    (hexists : t.has n.host = true) (hp : s.vfs.Has p)
    (habove : s.vfs.above n.host = some p.host) :
    s.vfs.nodeName n ≠ [] ∧
      wp (walkFsspec fold (t.view env) p ((s.vfs.nodeName n).splitOn ':'))
        (fun m _ => m = n ∧ ParentListed fold (t.view env) s.vfs n)
        (fun _ _ => ¬ ParentListed fold (t.view env) s.vfs n) s := by
  obtain ⟨name, hhost, hname, -⟩ := above_cons hs.wf hn habove
  have hlisted : ParentListed fold (t.view env) s.vfs n ↔
      (hostEntries fold (t.view env) p.host).isSome = true := by
    unfold ParentListed
    rw [habove]
    exact ⟨fun h => h p.host rfl, fun h d hd => Option.some.inj hd ▸ h⟩
  rw [hhost] at hexists
  obtain ⟨hempty, -, -, hcolon⟩ := hrule.name name p.host hexists
  have hpath : s.vfs.pathName (name :: p.host) = name := by
    rw [← hhost, ← nodeName_of_has hs.wf hn, hname]
  rw [hname, hlisted, List.splitOn_eq_singleton hcolon, walkFsspec, if_neg hempty, wp_bind]
  refine ⟨hempty, wp_mono (childrenNamed_named hs hp name) ?_ ?_⟩
  · rintro named s₁ ⟨⟨hr, hs₁⟩, hhosts, hall⟩
    unfold VFS.entriesNamed at hhosts
    obtain ⟨entries, hentries, hfilter⟩ := Option.map_eq_some_iff.mp hhosts
    have hmem : name :: p.host ∈ named.map Node.host := by
      rw [← hfilter]
      refine List.mem_filter.mpr ⟨(mem_hostEntries hentries).mpr ⟨name, rfl, hexists⟩, ?_⟩
      exact decide_eq_true (by rw [hpath])
    cases named with
    | nil => cases hmem
    | cons found rest =>
      have hfound : found.host ∈ entries.filter
          fun q => decide (fold (s.vfs.pathName q) = fold name) := by
        rw [hfilter]
        exact List.mem_map_of_mem List.mem_cons_self
      obtain ⟨hin, hfolded⟩ := List.mem_filter.mp hfound
      obtain ⟨other, hother, hhas⟩ := (mem_hostEntries hentries).mp hin
      have hfolded := of_decide_eq_true hfolded
      rw [hother] at hfolded hhas
      unfold VFS.pathName at hfolded
      split at hfolded
      · exact absurd (hfold.empty name hfolded.symm) hempty
      have hsame : other = name := hrule.folded other name p.host hhas hexists hfolded
      refine ⟨eq_of_host hs₁.wf (hall found List.mem_cons_self).1 (hr.has hn) ?_, ?_⟩
      · rw [hother, hsame, hhost]
      · rw [hentries]
        rfl
  · rintro e s₁ ⟨-, hnone⟩
    unfold VFS.entriesNamed at hnone
    rw [Option.map_eq_none_iff] at hnone
    rw [hnone]
    exact Bool.false_ne_true

/-- **What a FSSpec leads to**, whether or not the directory can be listed. -/
theorem nodeFromFsspec_entry (hfold : CaseFolding fold) (hrule : NamingRule fold t)
    (hs : s.Steady fold (t.view env))
    (hbuild : ∃ r, s.vfs.Has r ∧ r.host = s.vfs.buildRoot ∧ r.id = 2) {n : Node}
    (hn : s.vfs.Has n) (hexists : t.has n.host = true) {name : List UInt8}
    (hname : encodeMacRoman (s.vfs.nodeName n) = some name) (hlen : name.length ≤ 63)
    {parId : Int} (hparent : NumbersParent s n parId) :
    wp (nodeFromFsspec fold (t.view env) (volumeRef n.volume) parId
        (.bytes (UInt8.ofNat name.length :: name)))
      (fun m _ => m = n ∧ ParentListed fold (t.view env) s.vfs n)
      (fun _ _ => ¬ ParentListed fold (t.view env) s.vfs n) s := by
  refine nodeFromFsspec_walk hs.wf hs.ids hbuild hn hname hlen hparent (fun habove s' => ?_)
    fun p hp habove => walkFsspec_entry hfold hrule hs hn hexists hp habove
  refine ⟨rfl, fun d hd => ?_⟩
  rw [habove] at hd
  cases hd

end Fsspecs

/-- **Exactly when an entry is found.** In every state that reading a host reaches, for a directory
that can be listed and any spelling of the name of one of its entries: the lookup contains the node
of the entry if and only if that node has this name, that is, the canonical path of the entry ends
in it and is not the root of a volume. -/
theorem childrenNamed_entry_iff {fold : Str → Str} {view : HostView} {nodeById : Dict Nat Node}
    {ident : Nat} {buildRoot : Path} {s : Registry}
    (hreached : Reached fold view nodeById ident buildRoot s) {d : Node} (hd : s.vfs.Has d)
    (hdir : view.isDir d.host = true) {names : List Str}
    (hnames : view.listdir d.host = .ok names) {n n' : Str} (hn : n ∈ names)
    (hspelling : fold n' = fold n) :
    ∃ found s₁ m s₂, childrenNamed fold view d n' s = .ok found s₁ ∧
      node view (n :: d.host) s₁ = .ok m s₂ ∧
      (m ∈ found ↔ fold (s.vfs.pathName (view.resolve (n :: d.host))) = fold n) :=
  childrenNamed_entry hreached.steady hd hdir hnames hn hspelling

/-- The directory `/p` with a file `a` and a link `l` to it. -/
def linkView : HostView where
  resolve p := if p = [['l'], ['p']] then [['a'], ['p']] else p
  isDir p := decide (p = [] ∨ p = [['p']])
  listdir p :=
    if p = [['p']] then .ok [['a'], ['l']]
    else if p = [] then .ok [['p']]
    else .error (notDirectory p)

/-- The node of `/p`, which is the build root. -/
def linkRoot : Node := ⟨0, [['p']], .build, 2⟩

/-- The file is found under its name. -/
theorem childrenNamed_entry_iff_file :
    ∃ found s₁ m s₂,
      childrenNamed id linkView linkRoot ['a'] (Registry.init .empty 0 [['p']]) = .ok found s₁ ∧
      node linkView [['a'], ['p']] s₁ = .ok m s₂ ∧ (m ∈ found ↔ id ['a'] = id ['a']) :=
  childrenNamed_entry_iff (.init : Reached id linkView .empty 0 [['p']] _) (d := linkRoot)
    rfl rfl rfl List.mem_cons_self rfl

/-- **A link is not found under its own name.** -/
theorem childrenNamed_misses : ¬ ∀ (fold : Str → Str) (view : HostView) (buildRoot : Path)
    (s : Registry), Reached fold view .empty 0 buildRoot s → ∀ d : Node, s.vfs.Has d →
    view.isDir d.host = true → ∀ names, view.listdir d.host = .ok names → ∀ n ∈ names,
    ∃ found s₁ m s₂, childrenNamed fold view d n s = .ok found s₁ ∧
      node view (n :: d.host) s₁ = .ok m s₂ ∧ m ∈ found := by
  intro h
  have hlisted : linkView.listdir linkRoot.host = .ok [['a'], ['l']] := rfl
  have hl : ['l'] ∈ [['a'], ['l']] := by decide
  obtain ⟨found, s₁, m, s₂, hfound, hnode, hm⟩ :=
    h id linkView [['p']] _ .init linkRoot rfl rfl _ hlisted ['l'] hl
  obtain ⟨found', s₁', m', s₂', hfound', hnode', hiff⟩ :=
    childrenNamed_entry (init_steady id linkView .empty 0 [['p']]) (d := linkRoot) rfl rfl
      hlisted hl (show id ['l'] = id ['l'] from rfl)
  rw [hfound] at hfound'
  cases hfound'
  rw [hnode] at hnode'
  cases hnode'
  exact absurd (hiff.mp hm) (by decide)

end Cwhost.Vfs
