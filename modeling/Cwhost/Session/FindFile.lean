import Cwhost.Vfs.Hfs

/-!
# Finding an include file (`session.py`, `Session._find_file`)

A name with a colon is first looked up as an HFS path; then, and otherwise, it is searched for in
the include roots, walking over slashes if it has any. Only `NotFound` of the HFS lookup leads on to
the search.

* `findFile_spec`: what each route returns and leaves behind.
* `findFile_returns_iff`: over directories that can be listed, exactly when no exception escapes.
* `run_tracked_iff`: exactly when the last loaded file is tracked through a run of calls.

Source: `session.py`, `_include_search_roots`, `_node_is_under`, `_walk_slash_include`,
`_find_file`.

Premises: `Listable` in the results that say what no exception does; a directory that cannot be
listed raises, in the HFS lookup and in the search.

Out of scope: paths that cannot be resolved or stat'ed. `Path.resolve` raises a `RuntimeError` on a
loop of symbolic links, and `Path.is_dir` a `PermissionError` below a directory that can be listed
and not searched; both escape. A `HostView` answers for every path.
-/

namespace Cwhost

open Lib Vfs

/-- The fields of `Session` that `_find_file` uses. -/
structure FileSearch where
  registry : Registry
  files : List Node
  includeUser : List Node
  includeSystem : List Node
  lastLoadedNode : Option Node

/-- `Session.__init__`, for those fields. -/
def FileSearch.start (registry : Registry) (files includeUser includeSystem : List Node) :
    FileSearch := ⟨registry, files, includeUser, includeSystem, none⟩

/-- A method of the session. -/
abbrev FindM := EStateM Exc FileSearch

namespace FileSearch

/-- Work of the VFS. -/
def onRegistry {α : Type} (x : VfsM α) : FindM α :=
  zoom FileSearch.registry (fun s r => { s with registry := r }) x

/-- The file that includes: the dependent one, else the last loaded one, else the first. -/
def including (s : FileSearch) (dependent : Int) : Option Node :=
  if 0 ≤ dependent ∧ dependent < s.files.length then s.files[dependent.toNat]?
  else if s.lastLoadedNode.isSome then s.lastLoadedNode
  else s.files.head?

/-- `_include_search_roots`. -/
def includeSearchRoots (fullsearch : Bool) (dependent : Int) : FindM (List Node) := do
  let s ← get
  if fullsearch then return s.includeUser ++ s.includeSystem
  else
    let directory ←
      match s.including dependent with
      | none => pure none
      | some n => onRegistry (parent n)
    return directory.toList ++ (s.includeUser ++ s.includeSystem)

/-- `_node_is_under`, over the path of the cursor, which `parent` shortens. -/
def nodeIsUnder (root : Node) : Path → Node → VfsM Bool
  | [], cursor => return decide (cursor.id = root.id)
  | _ :: d, cursor => do
    if cursor.id = root.id then return true
    match ← parent cursor with
    | none => return false
    | some p => nodeIsUnder root d p

section Search

variable (fold : Str → Str) (view : HostView)

/-- The loop of `_walk_slash_include` over the components: where they lead to below `root`, nothing
if they escape from it or name nothing. -/
def walkComponents (root : Node) : Node → List Str → VfsM (Option Node)
  | current, [] => return some current
  | current, component :: rest => do
    if component = [] ∨ component = ['.'] then walkComponents root current rest
    else if component = ['.', '.'] then
      match ← parent current with
      | none => return none
      | some p =>
        if ← nodeIsUnder root p.host p then walkComponents root p rest else return none
    else if ¬ view.isDir current.host then return none
    else
      let named ← childrenNamed fold view current component
      let v := (← get).vfs
      match named.filter fun child => decide (fold (v.nodeName child) = fold component) with
      | [] => return none
      | found :: _ => walkComponents root found rest

/-- `filename.replace("\\", "/").split("/")`. -/
def slashComponents (filename : Str) : List Str :=
  (filename.map fun c => if c = '\\' then '/' else c).splitOn '/'

/-- `_walk_slash_include`. -/
def walkSlashInclude (filename : Str) : List Node → VfsM (Option Node)
  | [] => return none
  | root :: roots => do
    if ¬ view.isDir root.host then walkSlashInclude filename roots
    else
      match ← walkComponents fold view root root (slashComponents filename) with
      | none => walkSlashInclude filename roots
      | some found =>
        if view.isDir found.host then walkSlashInclude filename roots else return some found

/-- The last loop of `_find_file`. -/
def searchRoots (filename : Str) : List Node → VfsM (Option Node)
  | [] => return none
  | root :: roots => do
    let named ←
      if view.isDir root.host then childrenNamed fold view root filename else pure [root]
    let v := (← get).vfs
    match named.find? fun n =>
        !view.isDir n.host && decide (fold (v.nodeName n) = fold filename) with
    | some found => return some found
    | none => searchRoots filename roots

/-- The directory an HFS path of `_find_file` is relative to. -/
def hfsOrigin : FindM (Option Node) := do
  match (← get).files.head? with
  | none => return none
  | some origin =>
    if view.isDir origin.host then return some origin else onRegistry (parent origin)

/-- The lookup of an HFS path, nothing if it raises `NotFound`. -/
def hfsRoute (filename : Str) : FindM (Option Node) := do
  try
    let origin ← hfsOrigin view
    let found ← onRegistry (resolveHfs fold view filename origin)
    return some found
  catch e => if e.isNotFound then return none else throw e

/-- The search in the include roots. -/
def searchRoute (filename : Str) (fullsearch : Bool) (dependent : Int) : FindM (Option Node) := do
  let roots ← includeSearchRoots fullsearch dependent
  let found ← onRegistry
    (if '/' ∈ filename then walkSlashInclude fold view filename roots
      else searchRoots fold view filename roots)
  if found.isSome then modify fun s => { s with lastLoadedNode := found }
  return found

/-- `_find_file`. -/
def findFile (filename : Str) (fullsearch : Bool) (dependent : Int) : FindM (Option Node) := do
  let hfs ← if ':' ∈ filename then hfsRoute fold view filename else pure none
  match hfs with
  | some found => return some found
  | none => searchRoute fold view filename fullsearch dependent

/-- `cwErrFileNotFound`. -/
def cwErrFileNotFound : Nat := 8

/-- `CWFindAndLoadFile` up to the text of the file: the result without a file, or the file to
load. -/
def findAndLoad (filename : Str) (fullsearch : Bool) (dependent : Int) :
    FindM (Nat ⊕ Node) := do
  match ← findFile fold view filename fullsearch dependent with
  | none => return .inl cwErrFileNotFound
  | some found => return .inr found

end Search

/-! ## What the routes do -/

/-- What holds of a session: its files and include roots are nodes of its VFS. -/
structure Sound (fold : Str → Str) (s : FileSearch) : Prop where
  wf : s.registry.vfs.WF fold
  files : ∀ n ∈ s.files, s.registry.vfs.Has n
  user : ∀ n ∈ s.includeUser, s.registry.vfs.Has n
  system : ∀ n ∈ s.includeSystem, s.registry.vfs.Has n
  last : ∀ n, s.lastLoadedNode = some n → s.registry.vfs.Has n

section Specs

variable {fold : Str → Str} {view : HostView} {r r' : Registry} {s s' s'' : FileSearch}

/-- A new session is sound. -/
theorem start_sound {files includeUser includeSystem : List Node} (hwf : r.vfs.WF fold)
    (hhas : ∀ n ∈ files ++ (includeUser ++ includeSystem), r.vfs.Has n) :
    (start r files includeUser includeSystem).Sound fold where
  wf := hwf
  files n hn := hhas n (List.mem_append_left _ hn)
  user n hn := hhas n (List.mem_append_right _ (List.mem_append_left _ hn))
  system n hn := hhas n (List.mem_append_right _ (List.mem_append_right _ hn))
  last n hn := by cases hn

theorem wp_onRegistry {α : Type} {x : VfsM α} {Q : α → FileSearch → Prop}
    {E : Exc → FileSearch → Prop} : wp (onRegistry x) Q E s ↔
      wp x (fun a r => Q a { s with registry := r }) (fun e r => E e { s with registry := r })
        s.registry := wp_zoom

/-- `_node_is_under` only makes nodes. -/
theorem nodeIsUnder_spec (view : HostView) (root : Node) (p : Path) {cursor : Node}
    (hwf : r.vfs.WF fold) (hc : r.vfs.Has cursor) :
    wp (nodeIsUnder root p cursor) (fun _ r' => Reads fold view r r') (fun _ _ => False) r := by
  induction p generalizing r cursor with
  | nil => exact Reads.refl hwf
  | cons _ d ih =>
    rw [nodeIsUnder]
    split
    · exact Reads.refl hwf
    · rw [wp_bind]
      refine wp_mono (parent_above view hwf hc) ?_ fun _ _ h => h
      rintro p r₁ ⟨hr, -, hhas⟩
      cases p with
      | none => exact hr
      | some p =>
        exact wp_mono (ih hr.wf (hhas p rfl)) (fun _ _ h => hr.trans h) fun _ _ h => h

/-- The walk over slashes leads to a node, or nowhere. -/
theorem walkComponents_spec (root : Node) (components : List Str) {current : Node}
    (hwf : r.vfs.WF fold) (hc : r.vfs.Has current) :
    wp (walkComponents fold view root current components)
      (fun found r' => Reads fold view r r' ∧ ∀ n, found = some n → r'.vfs.Has n)
      (fun _ r' => Reads fold view r r' ∧ ¬ view.Listable) r := by
  induction components generalizing r current with
  | nil =>
    refine ⟨.refl hwf, fun n hn => ?_⟩
    rw [← Option.some.inj hn]
    exact hc
  | cons component rest ih =>
    have hnone : ∀ {r'}, Reads fold view r r' →
        Reads fold view r r' ∧ ∀ n, (none : Option Node) = some n → r'.vfs.Has n :=
      fun hr => ⟨hr, fun n hn => by cases hn⟩
    have hnext : ∀ {r₁ : Registry} {m : Node}, Reads fold view r r₁ → r₁.vfs.Has m →
        wp (walkComponents fold view root m rest)
          (fun found r' => Reads fold view r r' ∧ ∀ n, found = some n → r'.vfs.Has n)
          (fun _ r' => Reads fold view r r' ∧ ¬ view.Listable) r₁ :=
      fun hr hm => hr.wp_trans (ih hr.wf hm)
    rw [walkComponents]
    split
    · exact hnext (.refl hwf) hc
    split
    · rw [wp_bind]
      refine wp_mono (parent_above view hwf hc) ?_ fun _ _ h => h.elim
      rintro p r₁ ⟨hr, -, hhas⟩
      cases p with
      | none => exact hnone hr
      | some p =>
        simp only [wp_bind]
        refine wp_mono (nodeIsUnder_spec view root p.host hr.wf (hhas p rfl)) (fun b r₂ hr₂ => ?_)
          fun _ _ h => h.elim
        split
        · exact hnext (hr.trans hr₂) (hr₂.has (hhas p rfl))
        · exact hnone (hr.trans hr₂)
    split
    · exact hnone (.refl hwf)
    · rw [wp_bind]
      refine wp_mono (childrenNamed_first hwf hc component) ?_ ?_
      · rintro named r₁ ⟨hr, -, hhas⟩
        simp only [wp_bind, wp_get]
        split
        · exact hnone hr
        · rename_i found others hfound
          have hmem : found ∈ found :: others := List.mem_cons_self
          rw [← hfound] at hmem
          exact hnext hr (hhas found (List.mem_of_mem_filter hmem))
      · rintro e r₁ ⟨rfl, -, -, hlist⟩
        exact ⟨.refl hwf, hlist⟩

/-- What the search in the include roots returns: a file, or nothing. -/
def IsFile (view : HostView) (r : Registry) (found : Option Node) : Prop :=
  ∀ n, found = some n → r.vfs.Has n ∧ view.isDir n.host = false

theorem isFile_none : IsFile view r none := fun n hn => by cases hn

theorem walkSlashInclude_spec (filename : Str) (roots : List Node) (hwf : r.vfs.WF fold)
    (hroots : ∀ n ∈ roots, r.vfs.Has n) :
    wp (walkSlashInclude fold view filename roots)
      (fun found r' => Reads fold view r r' ∧ IsFile view r' found)
      (fun _ r' => Reads fold view r r' ∧ ¬ view.Listable) r := by
  induction roots generalizing r with
  | nil => exact ⟨.refl hwf, isFile_none⟩
  | cons root roots ih =>
    have hnext : ∀ {r₁ : Registry}, Reads fold view r r₁ →
        wp (walkSlashInclude fold view filename roots)
          (fun found r' => Reads fold view r r' ∧ IsFile view r' found)
          (fun _ r' => Reads fold view r r' ∧ ¬ view.Listable) r₁ :=
      fun hr => hr.wp_trans (ih hr.wf fun n hn => hr.has (hroots n (List.mem_cons_of_mem _ hn)))
    rw [walkSlashInclude]
    split
    · exact hnext (.refl hwf)
    · rw [wp_bind]
      refine wp_mono (walkComponents_spec root _ hwf (hroots root List.mem_cons_self)) ?_
        fun _ _ h => h
      rintro found r₁ ⟨hr, hhas⟩
      cases found with
      | none => exact hnext hr
      | some found =>
        dsimp only
        split
        · exact hnext hr
        · rename_i hdir
          refine ⟨hr, fun n hn => ?_⟩
          rw [← Option.some.inj hn]
          exact ⟨hhas found rfl, Bool.eq_false_iff.mpr hdir⟩

/-- A round of the last loop: the entries of the name are looked up, and the first file ends it. -/
theorem wp_searchRoots {filename : Str} {root : Node} {roots : List Node}
    {Q : Option Node → Registry → Prop} {E : Exc → Registry → Prop} :
    wp (searchRoots fold view filename (root :: roots)) Q E r ↔
      wp (if view.isDir root.host then childrenNamed fold view root filename else pure [root])
        (fun named r' => wp ((named.find? fun n =>
            !view.isDir n.host && decide (fold (r'.vfs.nodeName n) = fold filename)).elim
          (searchRoots fold view filename roots) fun found => pure (some found)) Q E r') E r := by
  rw [searchRoots]
  split
  all_goals
    rw [wp_bind]
    refine Iff.of_eq (congrArg (fun Q => wp _ Q E r) ?_)
    funext named r'
    simp only [wp_bind, wp_get]
    cases named.find? fun n =>
      !view.isDir n.host && decide (fold (r'.vfs.nodeName n) = fold filename) <;> rfl

theorem searchRoots_spec (filename : Str) (roots : List Node) (hwf : r.vfs.WF fold)
    (hroots : ∀ n ∈ roots, r.vfs.Has n) :
    wp (searchRoots fold view filename roots)
      (fun found r' => Reads fold view r r' ∧ IsFile view r' found)
      (fun _ r' => Reads fold view r r' ∧ ¬ view.Listable) r := by
  induction roots generalizing r with
  | nil => exact ⟨.refl hwf, isFile_none⟩
  | cons root roots ih =>
    have hroot := hroots root List.mem_cons_self
    -- The rest of the loop body, after the names of the root were looked up.
    have hrest : ∀ {r₁ : Registry} {named : List Node}, Reads fold view r r₁ →
        (∀ m ∈ named, r₁.vfs.Has m) →
        wp ((named.find? fun n =>
            !view.isDir n.host && decide (fold (r₁.vfs.nodeName n) = fold filename)).elim
          (searchRoots fold view filename roots) fun found => pure (some found))
          (fun found r' => Reads fold view r r' ∧ IsFile view r' found)
          (fun _ r' => Reads fold view r r' ∧ ¬ view.Listable) r₁ := by
      intro r₁ named hr hhas
      cases hfound : named.find? fun n =>
          !view.isDir n.host && decide (fold (r₁.vfs.nodeName n) = fold filename) with
      | some found =>
        have hsome := List.find?_some hfound
        rw [Bool.and_eq_true, Bool.not_eq_true'] at hsome
        refine ⟨hr, fun n hn => ?_⟩
        rw [← Option.some.inj hn]
        exact ⟨hhas found (List.mem_of_find?_eq_some hfound), hsome.1⟩
      | none =>
        exact hr.wp_trans (ih hr.wf fun n hn => hr.has (hroots n (List.mem_cons_of_mem _ hn)))
    rw [wp_searchRoots]
    split
    · refine wp_mono (childrenNamed_first hwf hroot filename) ?_ ?_
      · rintro named r₁ ⟨hr, -, hhas⟩
        exact hrest hr hhas
      · rintro e r₁ ⟨rfl, -, -, hlist⟩
        exact ⟨.refl hwf, hlist⟩
    · rw [wp_pure]
      refine hrest (.refl hwf) fun m hm => ?_
      rw [List.mem_singleton.mp hm]
      exact hroot

/-- A call keeps the files and the include roots, and only reads the host. -/
structure Kept (fold : Str → Str) (view : HostView) (s s' : FileSearch) : Prop where
  reads : Reads fold view s.registry s'.registry
  files : s'.files = s.files
  user : s'.includeUser = s.includeUser
  system : s'.includeSystem = s.includeSystem

theorem Kept.refl (hs : s.Sound fold) : Kept fold view s s := ⟨.refl hs.wf, rfl, rfl, rfl⟩

theorem Kept.trans (h : Kept fold view s s') (h' : Kept fold view s' s'') :
    Kept fold view s s'' :=
  ⟨h.reads.trans h'.reads, h'.files.trans h.files, h'.user.trans h.user,
    h'.system.trans h.system⟩

theorem Kept.registry (hr : Reads fold view s.registry r) :
    Kept fold view s { s with registry := r } := ⟨hr, rfl, rfl, rfl⟩

theorem Sound.kept (hs : s.Sound fold) (h : Kept fold view s s')
    (hlast : ∀ n, s'.lastLoadedNode = some n → s'.registry.vfs.Has n) : s'.Sound fold where
  wf := h.reads.wf
  files n hn := h.reads.has (hs.files n (h.files ▸ hn))
  user n hn := h.reads.has (hs.user n (h.user ▸ hn))
  system n hn := h.reads.has (hs.system n (h.system ▸ hn))
  last := hlast

theorem including_has (hs : s.Sound fold) {dependent : Int} {n : Node}
    (h : s.including dependent = some n) : s.registry.vfs.Has n := by
  rw [including] at h
  split at h
  · exact hs.files n (List.mem_of_getElem? h)
  · split at h
    · exact hs.last n h
    · exact hs.files n (List.mem_of_mem_head? h)

/-- The include roots are nodes; the first of a dependent search is the directory of the file that
includes. -/
theorem includeSearchRoots_spec (view : HostView) (hs : s.Sound fold) (fullsearch : Bool)
    (dependent : Int) :
    wp (includeSearchRoots fullsearch dependent)
      (fun roots s' => (Kept fold view s s' ∧ s'.lastLoadedNode = s.lastLoadedNode) ∧
        (∀ n ∈ roots, s'.registry.vfs.Has n) ∧
        (fullsearch = false → ∀ n d, s.including dependent = some n →
          s.registry.vfs.above n.host = some d → roots.head?.map Node.host = some d))
      (fun _ _ => False) s := by
  have hinc : ∀ {r : Registry}, Reads fold view s.registry r →
      ∀ n ∈ s.includeUser ++ s.includeSystem, r.vfs.Has n := by
    intro r hr n hn
    rcases List.mem_append.mp hn with hn | hn
    · exact hr.has (hs.user n hn)
    · exact hr.has (hs.system n hn)
  simp only [includeSearchRoots, wp_bind, wp_get]
  cases fullsearch with
  | true => exact ⟨⟨.refl hs, rfl⟩, hinc (.refl hs.wf), fun h => by cases h⟩
  | false =>
    simp only [Bool.false_eq_true, if_false]
    cases hn : s.including dependent with
    | none => exact ⟨⟨.refl hs, rfl⟩, hinc (.refl hs.wf), fun _ n d h => by cases h⟩
    | some n =>
      simp only [wp_bind, wp_onRegistry]
      refine wp_mono (parent_above view hs.wf (including_has hs hn)) ?_ fun _ _ h => h
      rintro p r ⟨hr, habove, hhas⟩
      refine ⟨⟨.registry hr, rfl⟩, fun m hm => ?_, fun _ m d hm hd => ?_⟩
      · rcases List.mem_append.mp hm with hm | hm
        · exact hhas m (Option.mem_toList.mp hm)
        · exact hinc hr m hm
      · rw [← Option.some.inj hm, ← habove] at hd
        cases p with
        | none => cases hd
        | some p => exact hd

/-- The directory an HFS path is relative to. -/
def originPath (view : HostView) (s : FileSearch) : Option Path :=
  s.files.head?.bind fun origin =>
    if view.isDir origin.host then some origin.host else s.registry.vfs.above origin.host

/-- What a name is to mean as an HFS path. -/
def hfsEnd (fold : Str → Str) (view : HostView) (s : FileSearch) (filename : Str) :
    Option HfsEnd := s.registry.hfsEnd fold view filename (s.originPath view)

theorem hfsOrigin_spec (hs : s.Sound fold) :
    wp (hfsOrigin view)
      (fun origin s' => (Kept fold view s s' ∧ s'.lastLoadedNode = s.lastLoadedNode) ∧
        origin.map Node.host = s.originPath view ∧ ∀ n, origin = some n → s'.registry.vfs.Has n)
      (fun _ _ => False) s := by
  simp only [hfsOrigin, wp_bind, wp_get, originPath]
  cases hfiles : s.files.head? with
  | none => exact ⟨⟨.refl hs, rfl⟩, rfl, fun n hn => by cases hn⟩
  | some origin =>
    have horigin := hs.files origin (List.mem_of_mem_head? hfiles)
    rw [Option.bind_some]
    dsimp only
    split
    · refine ⟨⟨.refl hs, rfl⟩, rfl, fun n hn => ?_⟩
      rw [← Option.some.inj hn]
      exact horigin
    · rw [wp_onRegistry]
      refine wp_mono (parent_above view hs.wf horigin) ?_ fun _ _ h => h
      rintro p r ⟨hr, habove, hhas⟩
      exact ⟨⟨.registry hr, rfl⟩, habove, hhas⟩

/-- What escapes from the lookup of an HFS path. -/
structure Escapes (fold : Str → Str) (view : HostView) (s s' : FileSearch)
    (filename : Str) : Prop where
  kept : Kept fold view s s'
  last : s'.lastLoadedNode = s.lastLoadedNode
  not_found : ':' ∈ filename → ∀ p, s.hfsEnd fold view filename ≠ some (.found p)
  listable : view.Listable → ':' ∈ filename ∧
    (s.hfsEnd fold view filename = none ∨ s.hfsEnd fold view filename = some .aboveRoot)

/-- The HFS route answers with what the path means, and without an answer the name is missing. -/
theorem hfsRoute_spec (hs : s.Sound fold) {filename : Str} (hcolon : ':' ∈ filename) :
    wp (hfsRoute fold view filename)
      (fun found s' => (Kept fold view s s' ∧ s'.lastLoadedNode = s.lastLoadedNode) ∧
        match found with
        | some n => s'.registry.vfs.Has n ∧ s.hfsEnd fold view filename = some (.found n.host)
        | none => s.hfsEnd fold view filename = some .missing)
      (fun _ s' => Escapes fold view s s' filename) s := by
  have hpath : filename ≠ [] := List.ne_nil_of_mem hcolon
  simp only [hfsRoute, wp_tryCatch, wp_bind]
  refine wp_mono (hfsOrigin_spec hs) ?_ fun _ _ h => h.elim
  rintro origin s₁ ⟨⟨hk, hlast⟩, horigin, hhas⟩
  rw [wp_onRegistry]
  refine wp_mono (resolveHfs_spec hk.reads.wf hpath hhas) ?_ ?_
  all_goals
    rw [horigin, hk.reads.hfsEnd filename]
  · rintro n r ⟨hr, hn, hend⟩
    exact ⟨⟨hk.trans (.registry hr), hlast⟩, hn, hend⟩
  · rintro e r ⟨hr, hfound, hmissing, habove⟩
    split
    · rename_i he
      exact ⟨⟨hk.trans (.registry hr), hlast⟩, hmissing he⟩
    · rename_i he
      exact ⟨hk.trans (.registry hr), hlast, fun _ => hfound,
        fun hlist => ⟨hcolon, habove (Bool.eq_false_iff.mpr he) hlist⟩⟩

/-- What a call finds and tracks. -/
inductive Finds (fold : Str → Str) (view : HostView) (s s' : FileSearch) (filename : Str) :
    Option Node → Prop
  /-- The name means something as an HFS path, and nothing is tracked. -/
  | hfs {n : Node} (colon : ':' ∈ filename)
      (found : s.hfsEnd fold view filename = some (.found n.host))
      (has : s'.registry.vfs.Has n) (last : s'.lastLoadedNode = s.lastLoadedNode) :
      Finds fold view s s' filename (some n)
  /-- The search finds a file, which is tracked. -/
  | searched {n : Node}
      (missing : ':' ∈ filename → s.hfsEnd fold view filename = some .missing)
      (file : view.isDir n.host = false) (has : s'.registry.vfs.Has n)
      (last : s'.lastLoadedNode = some n) : Finds fold view s s' filename (some n)
  /-- Neither finds anything. -/
  | nothing (missing : ':' ∈ filename → s.hfsEnd fold view filename = some .missing)
      (last : s'.lastLoadedNode = s.lastLoadedNode) : Finds fold view s s' filename none

/-- The search finds a file or nothing. -/
theorem searchRoute_spec (hs : s.Sound fold) (filename : Str) (fullsearch : Bool)
    (dependent : Int) :
    wp (searchRoute fold view filename fullsearch dependent)
      (fun found s' => Kept fold view s s' ∧ IsFile view s'.registry found ∧
        s'.lastLoadedNode = if found.isSome then found else s.lastLoadedNode)
      (fun _ s' => (Kept fold view s s' ∧ s'.lastLoadedNode = s.lastLoadedNode) ∧
        ¬ view.Listable) s := by
  simp only [searchRoute, wp_bind]
  refine wp_mono (includeSearchRoots_spec view hs fullsearch dependent) ?_ fun _ _ h => h.elim
  rintro roots s₁ ⟨⟨hk, hlast⟩, hroots, -⟩
  have hsearch : wp (if '/' ∈ filename then walkSlashInclude fold view filename roots
        else searchRoots fold view filename roots)
      (fun found r' => Reads fold view s₁.registry r' ∧ IsFile view r' found)
      (fun _ r' => Reads fold view s₁.registry r' ∧ ¬ view.Listable) s₁.registry := by
    split
    · exact walkSlashInclude_spec filename roots hk.reads.wf hroots
    · exact searchRoots_spec filename roots hk.reads.wf hroots
  rw [wp_onRegistry]
  refine wp_mono hsearch ?_ ?_
  · rintro found r ⟨hr, hfile⟩
    cases found with
    | none => exact ⟨hk.trans (.registry hr), hfile, hlast⟩
    | some n =>
      have hk' : Kept fold view s₁ { s₁ with registry := r, lastLoadedNode := some n } :=
        ⟨hr, rfl, rfl, rfl⟩
      exact ⟨hk.trans hk', hfile, rfl⟩
  · rintro e r ⟨hr, hlist⟩
    exact ⟨⟨hk.trans (.registry hr), hlast⟩, hlist⟩

/-- **What a call does.** -/
theorem findFile_spec (view : HostView) (hs : s.Sound fold) (filename : Str) (fullsearch : Bool)
    (dependent : Int) :
    wp (findFile fold view filename fullsearch dependent)
      (fun found s' => Kept fold view s s' ∧ Finds fold view s s' filename found)
      (fun _ s' => Escapes fold view s s' filename) s := by
  -- The search, from a state in which the HFS route left nothing.
  have hsearch : ∀ {s₁ : FileSearch}, Kept fold view s s₁ →
      s₁.lastLoadedNode = s.lastLoadedNode →
      (':' ∈ filename → s.hfsEnd fold view filename = some .missing) →
      wp (searchRoute fold view filename fullsearch dependent)
        (fun found s' => Kept fold view s s' ∧ Finds fold view s s' filename found)
        (fun _ s' => Escapes fold view s s' filename) s₁ := by
    intro s₁ hk hlast hmissing
    have hs₁ : s₁.Sound fold := hs.kept hk fun n hn => hk.reads.has (hs.last n (hlast ▸ hn))
    refine wp_mono (searchRoute_spec hs₁ filename fullsearch dependent) ?_ ?_
    · rintro found s' ⟨hk', hfile, hlast'⟩
      refine ⟨hk.trans hk', ?_⟩
      cases found with
      | none => exact .nothing hmissing (hlast'.trans hlast)
      | some n => exact .searched hmissing (hfile n rfl).2 (hfile n rfl).1 hlast'
    · rintro e s' ⟨⟨hk', hlast'⟩, hlist⟩
      refine ⟨hk.trans hk', hlast'.trans hlast, fun hc p hp => ?_, fun h => absurd h hlist⟩
      rw [hmissing hc] at hp
      cases hp
  rw [findFile]
  split
  · rename_i hcolon
    rw [wp_bind]
    refine wp_mono (hfsRoute_spec hs hcolon) ?_ fun _ _ h => h
    rintro found s₁ ⟨⟨hk, hlast⟩, hend⟩
    cases found with
    | none => exact hsearch hk hlast fun _ => hend
    | some n => exact ⟨hk, .hfs hcolon hend.2 hend.1 hlast⟩
  · rename_i hcolon
    exact hsearch (.refl hs) rfl fun h => absurd h hcolon

/-- A call keeps the session sound. -/
theorem findFile_sound (view : HostView) (hs : s.Sound fold) (filename : Str)
    (fullsearch : Bool) (dependent : Int) :
    (endState (findFile fold view filename fullsearch dependent s)).Sound fold := by
  refine wp_endState (wp_mono (findFile_spec view hs filename fullsearch dependent) ?_ ?_)
  · rintro found s' ⟨hk, hfinds⟩
    refine hs.kept hk fun n hn => ?_
    cases hfinds with
    | hfs _ _ _ hlast => exact hk.reads.has (hs.last n (hlast ▸ hn))
    | searched _ _ hhas hlast =>
      rw [hlast] at hn
      rw [← Option.some.inj hn]
      exact hhas
    | nothing _ hlast => exact hk.reads.has (hs.last n (hlast ▸ hn))
  · rintro e s' h
    exact hs.kept h.kept fun n hn => h.kept.reads.has (hs.last n (h.last ▸ hn))

/-! ## A small session -/

/-- `str.casefold`, of ASCII characters. -/
def asciiFold : Str → Str := List.map Char.toLower

/-- The directory `/p` with two files. -/
def smallView : HostView where
  resolve p := p
  isDir p := decide (p = [] ∨ p = [['p']])
  listdir p :=
    if p = [['p']] then .ok [['m', '.', 'c'], ['a', '.', 'h']]
    else if p = [] then .ok [['p']]
    else .error (notDirectory p)

theorem smallView_listable : smallView.Listable := by
  intro p hp
  rcases of_decide_eq_true hp with rfl | rfl
  · exact ⟨_, rfl⟩
  · exact ⟨_, rfl⟩

/-- `/p/m.c` is compiled, with `/p` as the build root. -/
def smallSearch : FileSearch :=
  let (main, registry) := (Registry.init .empty 0 [['p']]).intern [['m', '.', 'c'], ['p']]
  .start registry [main] [] []

theorem smallSearch_sound : smallSearch.Sound asciiFold := by
  obtain ⟨-, hwf⟩ := init_spec asciiFold .empty 0 [['p']]
  obtain ⟨-, hwf', -, hhas⟩ := intern_spec hwf [['m', '.', 'c'], ['p']]
  refine start_sound hwf' fun n hn => ?_
  rw [List.mem_singleton.mp hn]
  exact hhas

/-! ## When a call returns -/

/-- A name that has no meaning as an HFS path does not return. -/
theorem findFile_error (hs : s.Sound fold) {filename : Str} (hcolon : ':' ∈ filename)
    (hend : s.hfsEnd fold view filename = none ∨ s.hfsEnd fold view filename = some .aboveRoot)
    (fullsearch : Bool) (dependent : Int) {found : Option Node} :
    findFile fold view filename fullsearch dependent s ≠ .ok found s' := by
  intro h
  obtain ⟨-, hfinds⟩ := wp_of_ok (findFile_spec view hs filename fullsearch dependent) h
  cases hfinds with
  | hfs _ hfound => rcases hend with hend | hend <;> rw [hend] at hfound <;> cases hfound
  | searched hmissing =>
    have hmissing := hmissing hcolon
    rcases hend with hend | hend <;> rw [hend] at hmissing <;> cases hmissing
  | nothing hmissing =>
    have hmissing := hmissing hcolon
    rcases hend with hend | hend <;> rw [hend] at hmissing <;> cases hmissing

/-- **A call returns exactly when its name has no colon, or starts at a directory as an HFS path and
does not climb above the root of its volume**, and a name that is not found is answered with
`cwErrFileNotFound`. -/
theorem findFile_returns_iff (hs : s.Sound fold) (hview : view.Listable) (filename : Str)
    (fullsearch : Bool) (dependent : Int) :
    ((∃ found s', findFile fold view filename fullsearch dependent s = .ok found s') ↔
      (':' ∈ filename → ∃ e, s.hfsEnd fold view filename = some e ∧ e ≠ .aboveRoot)) ∧
    ∀ s', findFile fold view filename fullsearch dependent s = .ok none s' →
      findAndLoad fold view filename fullsearch dependent s = .ok (.inl cwErrFileNotFound) s' := by
  refine ⟨⟨?_, fun hcond => ?_⟩, fun s' h => ?_⟩
  · rintro ⟨found, s', h⟩ hcolon
    cases hend : s.hfsEnd fold view filename with
    | none => exact absurd h (findFile_error hs hcolon (.inl hend) fullsearch dependent)
    | some e =>
      refine ⟨e, rfl, fun he => ?_⟩
      rw [he] at hend
      exact findFile_error hs hcolon (.inr hend) fullsearch dependent h
  · have hspec := findFile_spec view hs filename fullsearch dependent
    suffices hok : ∃ found s', findFile fold view filename fullsearch dependent s = .ok found s' ∧
        Kept fold view s s' ∧ Finds fold view s s' filename found by
      obtain ⟨found, s', h, -⟩ := hok
      exact ⟨found, s', h⟩
    refine wp_exists_ok (wp_mono hspec (fun _ _ h => h) fun e s' hescapes => ?_)
    obtain ⟨hcolon, hend⟩ := hescapes.listable hview
    obtain ⟨e, he, hne⟩ := hcond hcolon
    rcases hend with hend | hend <;> rw [hend] at he <;> cases he
    exact hne rfl
  · rw [findAndLoad, bind_of_ok h]
    rfl

/-- A missing component is no error. -/
theorem findFile_returns_iff_missing :
    ∃ found s', findFile asciiFold smallView [':', 'b', '.', 'h'] false 0 smallSearch =
      .ok found s' :=
  (findFile_returns_iff smallSearch_sound smallView_listable _ _ _).1.mpr
    fun _ => ⟨.missing, by decide, by decide⟩

/-- **An unknown volume is an error.** -/
theorem findFile_unknownVolume : ¬ ∀ (fold : Str → Str) (view : HostView) (s : FileSearch),
    s.Sound fold → view.Listable → ∀ (filename : Str) (fullsearch : Bool) (dependent : Int),
    ∃ found s', findFile fold view filename fullsearch dependent s = .ok found s' := by
  intro h
  obtain ⟨found, s', hok⟩ := h asciiFold smallView smallSearch smallSearch_sound
    smallView_listable ['C', ':', 'a', '.', 'h'] false 0
  exact findFile_error smallSearch_sound (by decide) (.inl (by decide)) false 0 hok

/-! ## Runs of calls -/

/-- The arguments of a call. -/
structure FindCall where
  filename : Str
  fullsearch : Bool
  dependent : Int

/-- The call itself. -/
def FindCall.run (fold : Str → Str) (view : HostView) (c : FindCall) : FindM (Option Node) :=
  findFile fold view c.filename c.fullsearch c.dependent

/-- `P` holds of each call of a run, with the session the calls before it leave. -/
def Along (fold : Str → Str) (view : HostView) (P : FindCall → FileSearch → Prop) :
    List FindCall → FileSearch → Prop
  | [], _ => True
  | c :: calls, s => P c s ∧ Along fold view P calls (endState (c.run fold view s))

/-- `n` is tracked: it is the last loaded file, and the next nested lookup starts in its
directory. -/
structure Tracks (view : HostView) (s : FileSearch) (n : Node) : Prop where
  last : s.lastLoadedNode = some n
  file : view.isDir n.host = false
  nested : ∀ d, s.registry.vfs.above n.host = some d →
    wp (includeSearchRoots false (-1)) (fun roots _ => roots.head?.map Node.host = some d)
      (fun _ _ => False) s

/-- A call that returns a node tracks it, and one that returns none tracks what was tracked. -/
def Tracked (fold : Str → Str) (view : HostView) (c : FindCall) (s : FileSearch) : Prop :=
  wp (c.run fold view)
    (fun found s' => match found with
      | some n => Tracks view s' n
      | none => s'.lastLoadedNode = s.lastLoadedNode)
    (fun _ _ => True) s

/-- The name means nothing as an HFS path, or the last loaded file. -/
def HfsTracked (fold : Str → Str) (view : HostView) (c : FindCall) (s : FileSearch) : Prop :=
  ':' ∈ c.filename → ∀ p, s.hfsEnd fold view c.filename = some (.found p) →
    view.isDir p = false ∧ s.lastLoadedNode.map Node.host = some p

theorem including_last {n : Node} (h : s.lastLoadedNode = some n) :
    s.including (-1) = some n := by
  rw [including, if_neg (by omega), h]
  rfl

theorem Sound.tracks (hs : s.Sound fold) {n : Node} (hlast : s.lastLoadedNode = some n)
    (hfile : view.isDir n.host = false) : Tracks view s n where
  last := hlast
  file := hfile
  nested d hd := wp_mono (includeSearchRoots_spec view hs false (-1))
    (fun _ _ h => h.2.2 rfl n d (including_last hlast) hd) fun _ _ h => h

/-- **One call tracks exactly when the HFS route leaves nothing untracked.** -/
theorem tracked_iff (hs : s.Sound fold) (c : FindCall) :
    Tracked fold view c s ↔ HfsTracked fold view c s := by
  have hspec := findFile_spec view hs c.filename c.fullsearch c.dependent
  have hsound := findFile_sound view hs c.filename c.fullsearch c.dependent
  unfold Tracked FindCall.run
  cases hrun : findFile fold view c.filename c.fullsearch c.dependent s with
  | error e s' =>
    rw [wp_iff_of_error hrun] at hspec ⊢
    exact iff_of_true trivial fun hcolon p hp => absurd hp (hspec.not_found hcolon p)
  | ok found s' =>
    rw [wp_iff_of_ok hrun] at hspec ⊢
    rw [hrun] at hsound
    obtain ⟨hk, hfinds⟩ := hspec
    -- Without a meaning as an HFS path the condition holds.
    have hmissing : (':' ∈ c.filename → s.hfsEnd fold view c.filename = some .missing) →
        HfsTracked fold view c s := by
      intro hmissing hcolon p hp
      rw [hmissing hcolon] at hp
      cases hp
    cases hfinds with
    | nothing hm hlast => exact iff_of_true hlast (hmissing hm)
    | searched hm hfile hhas hlast => exact iff_of_true (hsound.tracks hlast hfile) (hmissing hm)
    | hfs hcolon hfound hhas hlast =>
      rename_i n
      constructor
      · intro htracks _ p hp
        rw [hfound] at hp
        cases hp
        refine ⟨htracks.file, ?_⟩
        rw [← hlast, htracks.last]
        rfl
      · intro hcond
        obtain ⟨hfile, hhost⟩ := hcond hcolon n.host hfound
        obtain ⟨m, hm, hmn⟩ := Option.map_eq_some_iff.mp hhost
        have hmhas : s'.registry.vfs.Has m := hk.reads.has (hs.last m hm)
        have hlast' : s'.lastLoadedNode = some m := hlast.trans hm
        rw [eq_of_host hk.reads.wf hmhas hhas hmn] at hlast'
        exact hsound.tracks hlast' hfile

/-- **A run tracks the last loaded file exactly when no call of it finds an HFS path**, but to that
file. -/
theorem run_tracked_iff (hs : s.Sound fold) : ∀ calls : List FindCall,
    Along fold view (Tracked fold view) calls s ↔
      Along fold view (HfsTracked fold view) calls s := by
  intro calls
  induction calls generalizing s with
  | nil => exact Iff.rfl
  | cons c calls ih =>
    have hsound := findFile_sound view hs c.filename c.fullsearch c.dependent
    exact and_congr (tracked_iff hs c) (ih hsound)

/-- A nested lookup after a plain one. -/
theorem run_tracked_iff_plain : Along asciiFold smallView (Tracked asciiFold smallView)
    [⟨['a', '.', 'h'], false, 0⟩, ⟨['b', '.', 'h'], false, -1⟩] smallSearch :=
  (run_tracked_iff smallSearch_sound _).mpr
    ⟨fun h => absurd h (by decide), fun h => absurd h (by decide), trivial⟩

/-- **A file found as an HFS path is not tracked.** -/
theorem hfs_untracked : ¬ ∀ (fold : Str → Str) (view : HostView) (s : FileSearch),
    s.Sound fold → ∀ calls : List FindCall, Along fold view (Tracked fold view) calls s := by
  intro h
  have hrun := h asciiFold smallView smallSearch smallSearch_sound
    [⟨[':', 'a', '.', 'h'], false, 0⟩]
  have hcond := (tracked_iff smallSearch_sound _).mp hrun.1
  have hlast := hcond (by decide) [['a', '.', 'h'], ['p']] (by decide)
  exact absurd hlast.2 (by decide)

end Specs

end FileSearch

end Cwhost
