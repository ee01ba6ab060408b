import Cwhost.Session.FindFile
import Cwhost.Vfs.Entries
import Mathlib.Data.List.Find

/-!
# What an include search finds (`session.py`, `Session._find_file`)

Over a host that does not change, what a search finds depends on the listings of the host alone:
`lookIn` says where a name leads in one search root, `soughtIn` in a list of them. A name with
slashes is walked component by component, never above its root; a name without is looked for among
the entries.

* `findFile_sought`: the code finds what the name means.
* `Reached.steady`: this holds in every state of a session.

Premises: one `HostView` for the whole run, with symbolic links; a search that comes to a directory
that cannot be listed stops there.

Out of scope: paths that cannot be resolved or stat'ed. `Path.resolve` raises a `RuntimeError` on a
loop of symbolic links, and `Path.is_dir` a `PermissionError` below a directory that can be listed
and not searched; both escape. A `HostView` answers for every path.
-/

namespace Cwhost

open Lib Vfs

/-- Where a lookup ends. -/
inductive Sought
  | found (p : Path)
  | missing
  /-- A directory on the way cannot be listed. -/
  | refused
  deriving DecidableEq, Repr

/-- What a lookup has returned. -/
def Sought.of (found : Option Node) : Sought := found.elim .missing fun n => .found n.host

/-- The same, or nothing of an exception. -/
def Sought.answer : Sought → Option (Option Path)
  | .found p => some (some p)
  | .missing => some none
  | .refused => none

theorem Sought.answer_inj {x y : Sought} : x.answer = y.answer ↔ x = y := by
  cases x <;> cases y <;> simp [Sought.answer]

/-- A lookup, and the next one if it finds nothing. -/
def Sought.or : Sought → Sought → Sought
  | .missing, next => next
  | sought, _ => sought

namespace FileSearch

/-! ## What a name means -/

/-- `root` is `p`, or a directory above it on its volume. -/
def isUnder (v : VFS) (root : Path) : Path → Bool
  | [] => decide (root = [])
  | name :: d => decide (root = name :: d) ||
      (decide (name :: d ≠ v.root (v.volumeFor (name :: d))) && isUnder v root d)

section Meaning

variable (fold : Str → Str) (view : HostView) (v : VFS)

/-- The walk over the components of a name with slashes. -/
def slashWalk (root : Path) : Path → List Str → Sought
  | p, [] => .found p
  | p, component :: rest =>
    if component = [] ∨ component = ['.'] then slashWalk root p rest
    else if component = ['.', '.'] then
      match v.above p with
      | none => .missing
      | some q => if isUnder v root q then slashWalk root q rest else .missing
    else if ¬ view.isDir p then .missing
    else
      match v.entriesNamed fold view p component with
      | none => .refused
      | some [] => .missing
      | some (q :: _) => slashWalk root q rest

/-- A walk that ends at a directory has found nothing. -/
def fileAt : Sought → Sought
  | .found p => if view.isDir p then .missing else .found p
  | sought => sought

/-- A name with slashes in a search root. -/
def slashIn (filename : Str) (root : Path) : Sought :=
  if view.isDir root then fileAt view (slashWalk fold view v root root (slashComponents filename))
  else .missing

/-- The first file of a name. -/
def fileNamed (filename : Str) (entries : List Path) : Sought :=
  (entries.find? fun q =>
    !view.isDir q && decide (fold (v.pathName q) = fold filename)).elim .missing .found

/-- A name without slashes in a search root. -/
def plainIn (filename : Str) (root : Path) : Sought :=
  (if view.isDir root then v.entriesNamed fold view root filename else some [root]).elim .refused
    (fileNamed fold view v filename)

/-- A name in a search root. -/
def lookIn (filename : Str) (root : Path) : Sought :=
  if '/' ∈ filename then slashIn fold view v filename root else plainIn fold view v filename root

end Meaning

/-- The search through the roots. -/
def soughtIn (look : Path → Sought) : List Path → Sought
  | [] => .missing
  | root :: roots => (look root).or (soughtIn look roots)

/-- The search roots in their order: the directory of the file that includes, then the user's, then
the system's. -/
def rootPaths (s : FileSearch) (fullsearch : Bool) (dependent : Int) : List Path :=
  (if fullsearch then []
    else ((s.including dependent).bind fun n => s.registry.vfs.above n.host).toList) ++
    (s.includeUser ++ s.includeSystem).map Node.host

/-! ## The code finds what the name means -/

/-- A session over a host that does not change. -/
structure Steady (fold : Str → Str) (view : HostView) (s : FileSearch) : Prop where
  sound : s.Sound fold
  registry : s.registry.Steady fold view

section Roots

variable {look : Path → Sought}

theorem soughtIn_skip {roots skipped : List Path} (h : ∀ q ∈ skipped, look q = .missing) :
    soughtIn look (skipped ++ roots) = soughtIn look roots := by
  induction skipped with
  | nil => rfl
  | cons q skipped ih =>
    obtain ⟨hq, hskipped⟩ := List.forall_mem_cons.mp h
    rw [List.cons_append, soughtIn, hq]
    exact ih hskipped

/-- A search finds nothing if no root has the name. -/
theorem soughtIn_missing_iff {roots : List Path} :
    soughtIn look roots = .missing ↔ ∀ q ∈ roots, look q = .missing := by
  induction roots with
  | nil => simp [soughtIn]
  | cons root roots ih =>
    rw [soughtIn, List.forall_mem_cons]
    cases hroot : look root with
    | missing => simpa [Sought.or] using ih
    | found p => simp [Sought.or]
    | refused => simp [Sought.or]

/-- **A search ends at the first root that has the name**, or refuses. -/
theorem soughtIn_ends {roots : List Path} {sought : Sought} (h : soughtIn look roots = sought)
    (hne : sought ≠ .missing) : ∃ skipped root rest, roots = skipped ++ root :: rest ∧
      (∀ q ∈ skipped, look q = .missing) ∧ look root = sought := by
  induction roots with
  | nil => exact absurd h.symm hne
  | cons root roots ih =>
    rw [soughtIn] at h
    by_cases hroot : look root = .missing
    · rw [hroot] at h
      obtain ⟨skipped, r, rest, rfl, hskipped, hr⟩ := ih h
      exact ⟨root :: skipped, r, rest, rfl, List.forall_mem_cons.mpr ⟨hroot, hskipped⟩, hr⟩
    · refine ⟨[], root, roots, rfl, by simp, ?_⟩
      rw [← h]
      cases hl : look root with
      | missing => exact absurd hl hroot
      | found p => rfl
      | refused => rfl

theorem soughtIn_first {roots skipped rest : List Path} {root : Path} {sought : Sought}
    (hroots : roots = skipped ++ root :: rest) (hskipped : ∀ q ∈ skipped, look q = .missing)
    (hroot : look root = sought) (hsought : sought ≠ .missing) : soughtIn look roots = sought := by
  subst hroot
  rw [hroots, soughtIn_skip hskipped, soughtIn]
  cases hl : look root with
  | missing => exact absurd hl hsought
  | found p => rfl
  | refused => rfl

theorem of_eq_found {found : Option Node} {p : Path} :
    Sought.of found = .found p ↔ ∃ n, found = some n ∧ n.host = p := by
  cases found with
  | none => simp [Sought.of]
  | some n => simp [Sought.of]

end Roots

section Congr

variable {fold : Str → Str} {view : HostView} {v v' : VFS}

theorem above_congr (h : v'.buildRoot = v.buildRoot) : v'.above = v.above := by
  funext p
  rw [VFS.above, VFS.above, root_congr h, volumeFor_congr h]

theorem pathName_congr (h : v'.buildRoot = v.buildRoot) : v'.pathName = v.pathName := by
  funext p
  rw [VFS.pathName, VFS.pathName, root_congr h, volumeFor_congr h]

theorem isUnder_congr (h : v'.buildRoot = v.buildRoot) : isUnder v' = isUnder v := by
  funext root p
  induction p with
  | nil => rfl
  | cons name d ih => rw [isUnder, isUnder, root_congr h, volumeFor_congr h, ih]

/-- A walk depends on the VFS by its build root only. -/
theorem slashWalk_congr (h : v'.buildRoot = v.buildRoot) (root : Path) (components : List Str) :
    ∀ p, slashWalk fold view v' root p components = slashWalk fold view v root p components := by
  induction components with
  | nil => exact fun _ => rfl
  | cons component rest ih =>
    intro p
    simp only [slashWalk, above_congr h, isUnder_congr h, entriesNamed_congr (pathName_congr h), ih]

/-- And so does a lookup. -/
theorem lookIn_congr (h : v'.buildRoot = v.buildRoot) (filename : Str) :
    lookIn fold view v' filename = lookIn fold view v filename := by
  have hfile : fileNamed fold view v' filename = fileNamed fold view v filename := by
    funext entries
    rw [fileNamed, fileNamed, pathName_congr h]
  funext root
  unfold lookIn slashIn plainIn
  rw [slashWalk_congr h, entriesNamed_congr (pathName_congr h), hfile]

end Congr

/-- `x`, started in `s₁`, comes to what was sought in `s`: it returns it, or fails where that was
refused, and only reads. -/
def Seeks (fold : Str → Str) (view : HostView) (s : Registry) (sought : Sought)
    (x : VfsM (Option Node)) (s₁ : Registry) : Prop :=
  wp x
    (fun found s' => (Reads fold view s s' ∧ s'.Steady fold view) ∧ Sought.of found = sought ∧
      ∀ n, found = some n → s'.vfs.Has n)
    (fun _ s' => (Reads fold view s s' ∧ s'.Steady fold view) ∧ sought = .refused) s₁

section Searches

variable {fold : Str → Str} {view : HostView} {s s₁ : Registry}

theorem seeks_none (hr : Reads fold view s s₁) (hs : s₁.Steady fold view) :
    Seeks fold view s .missing (return none) s₁ := ⟨⟨hr, hs⟩, rfl, fun _ h => nomatch h⟩

theorem seeks_some (hr : Reads fold view s s₁) (hs : s₁.Steady fold view) {n : Node}
    (hn : s₁.vfs.Has n) : Seeks fold view s (.found n.host) (return some n) s₁ := by
  refine ⟨⟨hr, hs⟩, rfl, fun m hm => ?_⟩
  rw [← Option.some.inj hm]
  exact hn

/-- **`_node_is_under`** looks for the root on the way up. -/
theorem nodeIsUnder_isUnder {root cursor : Node} (hr : Reads fold view s s₁)
    (hs : s₁.Steady fold view) (hroot : s₁.vfs.Has root) (hc : s₁.vfs.Has cursor) :
    wp (nodeIsUnder root cursor.host cursor)
      (fun b s' => (Reads fold view s s' ∧ s'.Steady fold view) ∧
        b = isUnder s.vfs root.host cursor.host) (fun _ _ => False) s₁ := by
  have hid := hs.id_eq_iff hc hroot
  generalize hp : cursor.host = p at hid ⊢
  induction p generalizing cursor s₁ with
  | nil =>
    refine ⟨⟨hr, hs⟩, ?_⟩
    rw [isUnder]
    exact decide_eq_decide.mpr (hid.trans eq_comm)
  | cons name d ih =>
    rw [nodeIsUnder, isUnder]
    split
    · rename_i h
      refine ⟨⟨hr, hs⟩, ?_⟩
      rw [decide_eq_true (hid.mp h).symm]
      rfl
    · rename_i h
      rw [decide_eq_false (fun hhost => h (hid.mpr hhost.symm)), Bool.false_or, wp_bind]
      refine wp_mono (parent_steady hs hc) ?_ fun _ _ h => h.elim
      rintro up s₂ ⟨⟨hr₂, hs₂⟩, habove, hhas⟩
      rw [hr.above, hp] at habove
      unfold VFS.above at habove
      split at habove
      · rename_i htop
        cases up with
        | some up => cases habove
        | none => exact ⟨⟨hr.trans hr₂, hs₂⟩, by rw [decide_eq_false (not_not.mpr htop)]; rfl⟩
      · rename_i htop
        cases up with
        | none => cases habove
        | some up =>
          have hhost : up.host = d := Option.some.inj habove
          have hup := hhas up rfl
          have hroot₂ := hr₂.has hroot
          rw [decide_eq_true htop, Bool.true_and]
          have hid₂ := hs₂.id_eq_iff hup hroot₂
          rw [hhost] at hid₂
          exact ih (hr.trans hr₂) hs₂ hroot₂ hup hhost hid₂

/-- **The walk over the components** of a name with slashes. -/
theorem walkComponents_seeks {root : Node} (components : List Str) {current : Node}
    (hr : Reads fold view s s₁) (hs : s₁.Steady fold view) (hroot : s₁.vfs.Has root)
    (hc : s₁.vfs.Has current) :
    Seeks fold view s (slashWalk fold view s.vfs root.host current.host components)
      (walkComponents fold view root current components) s₁ := by
  induction components generalizing s₁ current with
  | nil => exact seeks_some hr hs hc
  | cons component rest ih =>
    rw [walkComponents, slashWalk]
    split
    · exact ih hr hs hroot hc
    unfold Seeks
    split
    · rw [wp_bind]
      refine wp_mono (parent_steady hs hc) ?_ fun _ _ h => h.elim
      rintro up s₂ ⟨⟨hr₂, hs₂⟩, habove, hhas⟩
      rw [hr.above] at habove
      rw [← habove]
      cases up with
      | none => exact seeks_none (hr.trans hr₂) hs₂
      | some up =>
        have hunder := nodeIsUnder_isUnder (hr.trans hr₂) hs₂ (hr₂.has hroot) (hhas up rfl)
        dsimp only [Option.map_some]
        rw [wp_bind]
        refine wp_mono (wp_and hunder (nodeIsUnder_spec view root up.host hs₂.wf (hhas up rfl)))
          ?_ fun _ _ h => h.1.elim
        rintro b s₃ ⟨⟨⟨hr₃, hs₃⟩, rfl⟩, hr₂₃⟩
        split
        · exact ih hr₃ hs₃ (hr₂₃.has (hr₂.has hroot)) (hr₂₃.has (hhas up rfl))
        · exact seeks_none hr₃ hs₃
    split
    · exact seeks_none hr hs
    · rw [wp_bind]
      refine wp_mono (childrenNamed_named hs hc component) ?_ ?_
      · rintro named s₂ ⟨⟨hr₂, hs₂⟩, hentries, hhas⟩
        rw [entriesNamed_congr hr.pathName] at hentries
        have hall : named.filter (fun child =>
            decide (fold (s₂.vfs.nodeName child) = fold component)) = named :=
          List.filter_eq_self.mpr fun m hm => decide_eq_true (hhas m hm).2
        simp only [wp_bind, wp_get]
        rw [hall, hentries]
        cases named with
        | nil => exact seeks_none (hr.trans hr₂) hs₂
        | cons m named =>
          exact ih (hr.trans hr₂) hs₂ (hr₂.has hroot) (hhas m List.mem_cons_self).1
      · rintro e s₂ ⟨rfl, hnone⟩
        rw [entriesNamed_congr hr.pathName] at hnone
        rw [hnone]
        exact ⟨⟨hr, hs⟩, rfl⟩

/-- **The search for a name with slashes.** -/
theorem walkSlashInclude_seeks (filename : Str) (roots : List Node) (hr : Reads fold view s s₁)
    (hs : s₁.Steady fold view) (hroots : ∀ n ∈ roots, s₁.vfs.Has n) :
    Seeks fold view s (soughtIn (slashIn fold view s.vfs filename) (roots.map Node.host))
      (walkSlashInclude fold view filename roots) s₁ := by
  induction roots generalizing s₁ with
  | nil => exact seeks_none hr hs
  | cons root roots ih =>
    obtain ⟨hroot, hroots⟩ := List.forall_mem_cons.mp hroots
    rw [walkSlashInclude, List.map_cons, soughtIn, slashIn]
    by_cases hdir : view.isDir root.host = true
    · rw [if_neg (not_not.mpr hdir), if_pos hdir]
      unfold Seeks
      rw [wp_bind]
      rw [← slashWalk_congr hr.buildRoot]
      refine wp_mono (walkComponents_seeks (slashComponents filename) (.refl hs.wf) hs hroot hroot)
        ?_ ?_
      · rintro found s₂ ⟨⟨hr₂, hs₂⟩, hfound, hhas⟩
        have hroots₂ : ∀ n ∈ roots, s₂.vfs.Has n := fun n hn => hr₂.has (hroots n hn)
        rw [← hfound]
        cases found with
        | none => exact ih (hr.trans hr₂) hs₂ hroots₂
        | some m =>
          dsimp only [Sought.of, Option.elim, fileAt]
          split
          · exact ih (hr.trans hr₂) hs₂ hroots₂
          · exact seeks_some (hr.trans hr₂) hs₂ (hhas m rfl)
      · rintro e s₂ ⟨⟨hr₂, hs₂⟩, hrefused⟩
        rw [hrefused]
        exact ⟨⟨hr.trans hr₂, hs₂⟩, rfl⟩
    · rw [if_pos hdir, if_neg hdir]
      exact ih hr hs hroots

/-- **The search for a name without slashes.** -/
theorem searchRoots_seeks (filename : Str) (roots : List Node) (hr : Reads fold view s s₁)
    (hs : s₁.Steady fold view) (hroots : ∀ n ∈ roots, s₁.vfs.Has n) :
    Seeks fold view s (soughtIn (plainIn fold view s.vfs filename) (roots.map Node.host))
      (searchRoots fold view filename roots) s₁ := by
  induction roots generalizing s₁ with
  | nil => exact seeks_none hr hs
  | cons root roots ih =>
    obtain ⟨hroot, hroots⟩ := List.forall_mem_cons.mp hroots
    -- The rest of the loop body, after the entries of that name were looked up.
    have hrest : ∀ {s₂ : Registry} {named : List Node}, Reads fold view s₁ s₂ →
        s₂.Steady fold view → (∀ m ∈ named, s₂.vfs.Has m) →
        Seeks fold view s
          ((fileNamed fold view s.vfs filename (named.map Node.host)).or
            (soughtIn (plainIn fold view s.vfs filename) (roots.map Node.host)))
          ((named.find? fun n =>
              !view.isDir n.host && decide (fold (s₂.vfs.nodeName n) = fold filename)).elim
            (searchRoots fold view filename roots) fun found => pure (some found)) s₂ := by
      intro s₂ named hr₂ hs₂ hhas
      have hname : ∀ m ∈ named, (!view.isDir m.host &&
          decide (fold (s₂.vfs.nodeName m) = fold filename)) =
          ((fun q => !view.isDir q && decide (fold (s.vfs.pathName q) = fold filename)) ∘
            Node.host) m := by
        intro m hm
        rw [nodeName_of_has hs₂.wf (hhas m hm), hr₂.pathName, hr.pathName]
        rfl
      have hfind : fileNamed fold view s.vfs filename (named.map Node.host) =
          .of (named.find? fun n =>
            !view.isDir n.host && decide (fold (s₂.vfs.nodeName n) = fold filename)) := by
        unfold fileNamed
        rw [List.find?_map, List.find?_congr hname]
        cases List.find? _ named <;> rfl
      rw [hfind]
      cases hf : named.find? fun n =>
          !view.isDir n.host && decide (fold (s₂.vfs.nodeName n) = fold filename) with
      | some m => exact seeks_some (hr.trans hr₂) hs₂ (hhas m (List.mem_of_find?_eq_some hf))
      | none => exact ih (hr.trans hr₂) hs₂ fun n hn => hr₂.has (hroots n hn)
    rw [List.map_cons, soughtIn, plainIn]
    unfold Seeks
    rw [wp_searchRoots]
    by_cases hdir : view.isDir root.host = true
    · rw [if_pos hdir, if_pos hdir]
      refine wp_mono (childrenNamed_named hs hroot filename) ?_ ?_
      · rintro named s₂ ⟨⟨hr₂, hs₂⟩, hentries, hhas⟩
        rw [entriesNamed_congr hr.pathName] at hentries
        rw [hentries]
        exact hrest hr₂ hs₂ fun m hm => (hhas m hm).1
      · rintro e s₂ ⟨rfl, hnone⟩
        rw [entriesNamed_congr hr.pathName] at hnone
        rw [hnone]
        exact ⟨⟨hr, hs⟩, rfl⟩
    · rw [if_neg hdir, if_neg hdir]
      refine @hrest s₁ [root] (.refl hs.wf) hs fun m hm => ?_
      rw [List.mem_singleton.mp hm]
      exact hroot

/-- The search roots of a session. -/
theorem includeSearchRoots_steady {t : FileSearch} (hs : t.Steady fold view) (fullsearch : Bool)
    (dependent : Int) :
    wp (includeSearchRoots fullsearch dependent)
      (fun roots t' => (Kept fold view t t' ∧ t'.registry.Steady fold view) ∧
        t'.lastLoadedNode = t.lastLoadedNode ∧
        roots.map Node.host = t.rootPaths fullsearch dependent ∧
        ∀ n ∈ roots, t'.registry.vfs.Has n)
      (fun _ _ => False) t := by
  have hinc : ∀ {r : Registry}, Reads fold view t.registry r →
      ∀ n ∈ t.includeUser ++ t.includeSystem, r.vfs.Has n := by
    intro r hr n hn
    rcases List.mem_append.mp hn with hn | hn
    · exact hr.has (hs.sound.user n hn)
    · exact hr.has (hs.sound.system n hn)
  unfold includeSearchRoots rootPaths
  rw [wp_bind, wp_get]
  cases fullsearch with
  | true => exact ⟨⟨.refl hs.sound, hs.registry⟩, rfl, rfl, hinc (.refl hs.sound.wf)⟩
  | false =>
    simp only [Bool.false_eq_true, if_false]
    cases hn : t.including dependent with
    | none => exact ⟨⟨.refl hs.sound, hs.registry⟩, rfl, rfl, hinc (.refl hs.sound.wf)⟩
    | some n =>
      simp only [wp_bind, wp_onRegistry]
      refine wp_mono (parent_steady hs.registry (including_has hs.sound hn)) ?_ fun _ _ h => h
      rintro p r ⟨⟨hr, hsteady⟩, habove, hhas⟩
      refine ⟨⟨.registry hr, hsteady⟩, rfl, ?_, fun m hm => ?_⟩
      · rw [List.map_append, Option.bind_some, ← habove]
        cases p <;> rfl
      · rcases List.mem_append.mp hm with hm | hm
        · exact hhas m (Option.mem_toList.mp hm)
        · exact hinc hr m hm

/-- **The search in the include roots finds what the name means.** -/
theorem searchRoute_sought {t : FileSearch} (hs : t.Steady fold view) (filename : Str)
    (fullsearch : Bool) (dependent : Int) :
    wp (searchRoute fold view filename fullsearch dependent)
      (fun found t' => (Kept fold view t t' ∧ t'.registry.Steady fold view) ∧
        Sought.of found = soughtIn (lookIn fold view t.registry.vfs filename)
          (t.rootPaths fullsearch dependent) ∧
        t'.lastLoadedNode = (if found.isSome then found else t.lastLoadedNode) ∧
        ∀ n, found = some n → t'.registry.vfs.Has n)
      (fun _ t' => (Kept fold view t t' ∧ t'.registry.Steady fold view) ∧
        t'.lastLoadedNode = t.lastLoadedNode ∧
        soughtIn (lookIn fold view t.registry.vfs filename)
          (t.rootPaths fullsearch dependent) = .refused) t := by
  unfold searchRoute
  rw [wp_bind]
  refine wp_mono (includeSearchRoots_steady hs fullsearch dependent) ?_ fun _ _ h => h.elim
  rintro roots t₁ ⟨⟨hk, hsteady⟩, hlast, hroots, hhas⟩
  have hsearch : Seeks fold view t.registry
      (soughtIn (lookIn fold view t.registry.vfs filename) (roots.map Node.host))
      (if '/' ∈ filename then walkSlashInclude fold view filename roots
        else searchRoots fold view filename roots) t₁.registry := by
    unfold lookIn
    split
    · exact walkSlashInclude_seeks filename roots hk.reads hsteady hhas
    · exact searchRoots_seeks filename roots hk.reads hsteady hhas
  rw [← hroots, wp_bind, wp_onRegistry]
  refine wp_mono hsearch ?_ ?_
  · rintro found r ⟨⟨hr, hsteady'⟩, hfound, hhas'⟩
    have hkept : ∀ last, Kept fold view t { t₁ with registry := r, lastLoadedNode := last } :=
      fun last => ⟨hr, hk.files, hk.user, hk.system⟩
    cases found with
    | none => exact ⟨⟨hkept t₁.lastLoadedNode, hsteady'⟩, hfound, hlast, hhas'⟩
    | some n => exact ⟨⟨hkept (some n), hsteady'⟩, hfound, rfl, hhas'⟩
  · rintro e r ⟨⟨hr, hsteady'⟩, hrefused⟩
    exact ⟨⟨⟨hr, hk.files, hk.user, hk.system⟩, hsteady'⟩, hlast, hrefused⟩

end Searches

/-! ## Steps of a walk -/

section Walks

variable {fold : Str → Str} {view : HostView} {v : VFS}

/-- A component that names an entry. -/
def IsName (component : Str) : Prop :=
  component ≠ [] ∧ component ≠ ['.'] ∧ component ≠ ['.', '.']

/-- **A step to an entry** takes the first of that name. -/
theorem slashWalk_name {root d : Path} {name : Str} (hname : IsName name)
    (hd : view.isDir d = true) (rest : List Str) :
    slashWalk fold view v root d (name :: rest) =
      (hostEntries fold view d).elim .refused fun entries =>
        (entries.find? fun q => decide (fold (v.pathName q) = fold name)).elim .missing
          fun q => slashWalk fold view v root q rest := by
  obtain ⟨hempty, hdot, hdots⟩ := hname
  rw [slashWalk, if_neg (not_or.mpr ⟨hempty, hdot⟩), if_neg hdots, if_neg (not_not.mpr hd)]
  unfold VFS.entriesNamed
  cases hostEntries fold view d with
  | none => rfl
  | some entries =>
    rw [Option.map_some, Option.elim_some, ← List.head?_filter]
    cases entries.filter _ <;> rfl

/-- A step of the walk over a component. -/
inductive WalkStep (fold : Str → Str) (view : HostView) (v : VFS) (root p : Path)
    (component : Str) : Path → Prop
  | stay (skip : component = [] ∨ component = ['.']) : WalkStep fold view v root p component p
  | up {d : Path} (dots : component = ['.', '.']) (above : v.above p = some d)
    (under : isUnder v root d = true) : WalkStep fold view v root p component d
  | down {child : Path} {entries : List Path} (name : IsName component)
    (dir : view.isDir p = true) (listed : hostEntries fold view p = some entries)
    (first : entries.find? (fun q => decide (fold (v.pathName q) = fold component)) = some child) :
    WalkStep fold view v root p component child

theorem slashWalk_step {root p p' : Path} {component : Str}
    (h : WalkStep fold view v root p component p') (rest : List Str) :
    slashWalk fold view v root p (component :: rest) = slashWalk fold view v root p' rest := by
  cases h with
  | stay skip => rw [slashWalk, if_pos skip]
  | up dots above under =>
    rw [dots, slashWalk, if_neg (by decide), if_pos rfl, above]
    exact if_pos under
  | down name dir listed first =>
    rw [slashWalk_name name dir, listed, Option.elim_some, first]
    rfl

/-- **What a walk that ends has done first.** -/
theorem slashWalk_found {root p q : Path} {component : Str} {rest : List Str}
    (h : slashWalk fold view v root p (component :: rest) = .found q) :
    ∃ p', WalkStep fold view v root p component p' ∧
      slashWalk fold view v root p' rest = .found q := by
  by_cases hskip : component = [] ∨ component = ['.']
  · rw [slashWalk, if_pos hskip] at h
    exact ⟨p, .stay hskip, h⟩
  by_cases hdots : component = ['.', '.']
  · rw [slashWalk, if_neg hskip, if_pos hdots] at h
    cases habove : v.above p with
    | none =>
      rw [habove] at h
      cases h
    | some d =>
      rw [habove] at h
      dsimp only at h
      split at h
      · exact ⟨d, .up hdots habove ‹_›, h⟩
      · cases h
  obtain ⟨hempty, hdot⟩ := not_or.mp hskip
  by_cases hd : view.isDir p = true
  · rw [slashWalk_name ⟨hempty, hdot, hdots⟩ hd] at h
    cases hentries : hostEntries fold view p with
    | none =>
      rw [hentries] at h
      cases h
    | some entries =>
      rw [hentries, Option.elim_some] at h
      cases hfirst : entries.find? fun q => decide (fold (v.pathName q) = fold component) with
      | none =>
        rw [hfirst] at h
        cases h
      | some child =>
        rw [hfirst] at h
        exact ⟨child, .down ⟨hempty, hdot, hdots⟩ hd hentries hfirst, h⟩
  · rw [slashWalk, if_neg hskip, if_neg hdots, if_pos hd] at h
    cases h

/-- A walk goes on where its first part ends. -/
theorem slashWalk_append {root : Path} {components rest : List Str} {p q : Path}
    (h : slashWalk fold view v root p components = .found q) :
    slashWalk fold view v root p (components ++ rest) = slashWalk fold view v root q rest := by
  induction components generalizing p with
  | nil =>
    cases h
    rfl
  | cons component components ih =>
    obtain ⟨p', hstep, h⟩ := slashWalk_found h
    rw [List.cons_append, slashWalk_step hstep]
    exact ih h

/-- The first entry of a name. -/
theorem find_named {name : Str} {child : Path} {entries : List Path}
    (h : entries.find? (fun q => decide (fold (v.pathName q) = fold name)) = some child) :
    child ∈ entries ∧ fold (v.pathName child) = fold name := by
  have hnamed := List.find?_some h
  rw [decide_eq_true_eq] at hnamed
  exact ⟨List.mem_of_find?_eq_some h, hnamed⟩

/-- If an entry has the name, there is a first one. -/
theorem exists_named {name : Str} {f : Path} {entries : List Path} (hf : f ∈ entries)
    (hnamed : fold (v.pathName f) = fold name) :
    ∃ g, entries.find? (fun q => decide (fold (v.pathName q) = fold name)) = some g :=
  Option.isSome_iff_exists.mp (List.find?_isSome.mpr ⟨f, hf, decide_eq_true hnamed⟩)

/-- If a file has the name, there is a first one. -/
theorem exists_file_named {name : Str} {f : Path} {entries : List Path} (hf : f ∈ entries)
    (hfile : view.isDir f = false) (hnamed : fold (v.pathName f) = fold name) :
    ∃ g, entries.find? (fun q => !view.isDir q &&
      decide (fold (v.pathName q) = fold name)) = some g := by
  refine Option.isSome_iff_exists.mp (List.find?_isSome.mpr ⟨f, hf, ?_⟩)
  rw [hfile, decide_eq_true hnamed]
  rfl

theorem fileAt_found (p : Path) :
    fileAt view (.found p) = if view.isDir p then .missing else .found p := rfl

/-- The files of a name are found among all entries. -/
theorem plainIn_dir {d : Path} (hd : view.isDir d = true) (filename : Str) :
    plainIn fold view v filename d =
      (hostEntries fold view d).elim .refused (fileNamed fold view v filename) := by
  unfold plainIn VFS.entriesNamed
  rw [if_pos hd]
  cases hostEntries fold view d with
  | none => rfl
  | some entries =>
    show fileNamed fold view v filename (entries.filter _) = fileNamed fold view v filename entries
    unfold fileNamed
    rw [List.find?_filter]
    congr 2
    funext q
    cases decide (fold (v.pathName q) = fold filename) <;> simp

theorem fileAt_eq_found {sought : Sought} {f : Path} :
    fileAt view sought = .found f ↔ sought = .found f ∧ view.isDir f = false := by
  cases sought with
  | missing => simp [fileAt]
  | refused => simp [fileAt]
  | found p =>
    rw [fileAt_found]
    by_cases hp : view.isDir p = true
    · rw [if_pos hp]
      refine iff_of_false Sought.noConfusion ?_
      rintro ⟨heq, hf⟩
      rw [Sought.found.inj heq, hf] at hp
      cases hp
    · rw [if_neg hp]
      refine ⟨fun h => ⟨h, ?_⟩, And.left⟩
      rw [← Sought.found.inj h]
      exact Bool.eq_false_iff.mpr hp

theorem fileNamed_eq_found {name : Str} {entries : List Path} {f : Path} :
    fileNamed fold view v name entries = .found f ↔
      entries.find? (fun q => !view.isDir q && decide (fold (v.pathName q) = fold name)) =
        some f := by
  unfold fileNamed
  cases entries.find? fun q => !view.isDir q && decide (fold (v.pathName q) = fold name) with
  | none => simp
  | some q => simp

/-- **A file found by its name alone** is an entry that has the name. -/
theorem plainIn_found {root : Path} (hd : view.isDir root = true) {name : Str} {f : Path}
    (h : plainIn fold view v name root = .found f) :
    ∃ entries, hostEntries fold view root = some entries ∧
      entries.find? (fun q => !view.isDir q && decide (fold (v.pathName q) = fold name)) =
        some f ∧ f ∈ entries ∧ view.isDir f = false ∧ fold (v.pathName f) = fold name := by
  rw [plainIn_dir hd] at h
  cases hentries : hostEntries fold view root with
  | none =>
    rw [hentries] at h
    cases h
  | some entries =>
    rw [hentries] at h
    have hfind := fileNamed_eq_found.mp h
    have hsome := List.find?_some hfind
    rw [Bool.and_eq_true, Bool.not_eq_true', decide_eq_true_eq] at hsome
    exact ⟨entries, rfl, hfind, List.mem_of_find?_eq_some hfind, hsome⟩

theorem plainIn_refused {root : Path} (hd : view.isDir root = true) {name : Str}
    (h : plainIn fold view v name root = .refused) : hostEntries fold view root = none := by
  rw [plainIn_dir hd] at h
  cases hentries : hostEntries fold view root with
  | none => rfl
  | some entries =>
    rw [hentries, Option.elim_some] at h
    unfold fileNamed at h
    cases hfind : entries.find? fun q =>
        !view.isDir q && decide (fold (v.pathName q) = fold name) <;> rw [hfind] at h <;> cases h

theorem lookIn_slash {a : Str} (h : '/' ∈ a) :
    lookIn fold view v a = slashIn fold view v a := funext fun _ => if_pos h

theorem lookIn_plain {a : Str} (h : '/' ∉ a) :
    lookIn fold view v a = plainIn fold view v a := funext fun _ => if_neg h

end Walks

/-! ## Every state of a session -/

/-- The states of a session over one state of the host: it is made over a VFS that reading has
reached, it asks for files, and it reads the VFS otherwise. -/
inductive Reached (fold : Str → Str) (view : HostView) (nodeById : Dict Nat Node) (ident : Nat)
    (buildRoot : Path) : FileSearch → Prop
  | start {r : Registry} {files includeUser includeSystem : List Node}
    (h : Vfs.Reached fold view nodeById ident buildRoot r)
    (has : ∀ n ∈ files ++ (includeUser ++ includeSystem), r.vfs.Has n) :
    Reached fold view nodeById ident buildRoot (start r files includeUser includeSystem)
  | call {s : FileSearch} (h : Reached fold view nodeById ident buildRoot s) (c : FindCall) :
    Reached fold view nodeById ident buildRoot (endState (c.run fold view s))
  | read {s : FileSearch} (h : Reached fold view nodeById ident buildRoot s) (step : ReadStep)
    (owned : ∀ n, step = .children n → s.registry.vfs.Has n) :
    Reached fold view nodeById ident buildRoot
      { s with registry := endState (step.run fold view s.registry) }

section Sessions

variable {fold : Str → Str} {view : HostView} {s : FileSearch}

theorem findFile_search {filename : Str} (h : ':' ∉ filename) (fullsearch : Bool)
    (dependent : Int) : findFile fold view filename fullsearch dependent =
      searchRoute fold view filename fullsearch dependent := by
  unfold findFile
  rw [if_neg h]
  rfl

/-- **`_find_file` finds what the name means**, for a name without colons. -/
theorem findFile_sought (hs : s.Steady fold view) {filename : Str} (h : ':' ∉ filename)
    (fullsearch : Bool) (dependent : Int) :
    wp (findFile fold view filename fullsearch dependent)
      (fun found _ => Sought.of found = soughtIn (lookIn fold view s.registry.vfs filename)
        (s.rootPaths fullsearch dependent))
      (fun _ _ => soughtIn (lookIn fold view s.registry.vfs filename)
        (s.rootPaths fullsearch dependent) = .refused) s := by
  rw [findFile_search h]
  exact wp_mono (searchRoute_sought hs filename fullsearch dependent) (fun _ _ h => h.2.1)
    fun _ _ h => h.2.2

/-- A search that finds something returns its node. -/
theorem findFile_found (hs : s.Steady fold view) {filename : Str} (h : ':' ∉ filename)
    {fullsearch : Bool} {dependent : Int} {p : Path}
    (hp : soughtIn (lookIn fold view s.registry.vfs filename) (s.rootPaths fullsearch dependent) =
      .found p) : ∃ m s', findFile fold view filename fullsearch dependent s = .ok (some m) s' ∧
        m.host = p := by
  have hrun := findFile_sought hs h fullsearch dependent
  rw [hp] at hrun
  obtain ⟨found, s', hok, hfound⟩ := wp_exists_ok (wp_mono hrun (fun _ _ h => h) fun _ _ h => by
    cases h)
  obtain ⟨m, rfl, hm⟩ := of_eq_found.mp hfound
  exact ⟨m, s', hok, hm⟩

theorem hfsRoute_steady (hs : s.Steady fold view) (filename : Str) :
    wp (hfsRoute fold view filename) (fun _ s' => s'.registry.Steady fold view)
      (fun _ s' => s'.registry.Steady fold view) s := by
  have horigin : wp (hfsOrigin view)
      (fun origin s' => s'.registry.Steady fold view ∧
        ∀ n, origin = some n → s'.registry.vfs.Has n) (fun _ _ => False) s := by
    unfold hfsOrigin
    simp only [wp_bind, wp_get]
    cases hfiles : s.files.head? with
    | none => exact ⟨hs.registry, fun n hn => by cases hn⟩
    | some origin =>
      have hhas := hs.sound.files origin (List.mem_of_mem_head? hfiles)
      dsimp only
      split
      · refine ⟨hs.registry, fun n hn => ?_⟩
        rw [← Option.some.inj hn]
        exact hhas
      · rw [wp_onRegistry]
        refine wp_mono (parent_steady hs.registry hhas) ?_ fun _ _ h => h
        rintro p r ⟨⟨-, hsteady⟩, -, hp⟩
        exact ⟨hsteady, hp⟩
  unfold hfsRoute
  simp only [wp_tryCatch, wp_bind]
  refine wp_mono horigin ?_ fun _ _ h => h.elim
  rintro origin s₁ ⟨hs₁, hhas⟩
  rw [wp_onRegistry]
  refine wp_mono (resolveHfs_steady hs₁ filename hhas) (fun _ _ h => h.1) fun e r h => ?_
  split
  · exact h
  · exact h

/-- A call keeps the session steady. -/
theorem findFile_steady (hs : s.Steady fold view) (filename : Str) (fullsearch : Bool)
    (dependent : Int) :
    (endState (findFile fold view filename fullsearch dependent s)).Steady fold view := by
  refine ⟨findFile_sound view hs.sound filename fullsearch dependent, ?_⟩
  refine wp_endState (x := findFile fold view filename fullsearch dependent)
    (I := fun s' => s'.registry.Steady fold view) ?_
  have hsearch : ∀ {s₁ : FileSearch}, s₁.Steady fold view →
      wp (searchRoute fold view filename fullsearch dependent)
        (fun _ s' => s'.registry.Steady fold view) (fun _ s' => s'.registry.Steady fold view) s₁ :=
    fun h => wp_mono (searchRoute_sought h filename fullsearch dependent) (fun _ _ h => h.1.2)
      fun _ _ h => h.1.2
  by_cases hcolon : ':' ∈ filename
  · unfold findFile
    rw [if_pos hcolon, wp_bind]
    refine wp_mono (wp_and (hfsRoute_spec hs.sound hcolon) (hfsRoute_steady hs filename)) ?_
      fun _ _ h => h.2
    rintro found s₁ ⟨⟨⟨hk, hlast⟩, -⟩, hs₁⟩
    cases found with
    | some n => exact hs₁
    | none =>
      have hsound : s₁.Sound fold := hs.sound.kept hk fun n hn =>
        hk.reads.has (hs.sound.last n (hlast ▸ hn))
      exact hsearch ⟨hsound, hs₁⟩
  · rw [findFile_search hcolon]
    exact hsearch hs

/-- **Every state of a session is steady.** -/
theorem Reached.steady {nodeById : Dict Nat Node} {ident : Nat} {buildRoot : Path}
    (h : Reached fold view nodeById ident buildRoot s) : s.Steady fold view := by
  induction h with
  | start h has => exact ⟨start_sound h.steady.wf has, h.steady⟩
  | call h c ih => exact findFile_steady ih c.filename c.fullsearch c.dependent
  | read _ step owned ih =>
    obtain ⟨hsteady, hhas⟩ := step.steady ih.registry owned
    refine ⟨⟨hsteady.wf, fun n hn => ?_, fun n hn => ?_, fun n hn => ?_, fun n hn => ?_⟩, hsteady⟩
    · exact hhas n (ih.sound.files n hn)
    · exact hhas n (ih.sound.user n hn)
    · exact hhas n (ih.sound.system n hn)
    · exact hhas n (ih.sound.last n hn)

end Sessions

/-! ## A small session over a tree -/

/-- The directory `/p/d` of the small tree is the build root and the only search root. -/
def treeSearch : FileSearch :=
  .start (.init .empty 0 [['d'], ['p']]) [] [⟨0, [['d'], ['p']], .build, 2⟩] []

theorem treeSearch_reached :
    Reached id (smallTree.view calm) .empty 0 [['d'], ['p']] treeSearch := by
  refine .start .init fun n hn => ?_
  rw [List.mem_singleton.mp hn]
  rfl

end FileSearch

end Cwhost
