import Cwhost.Session.IncludeSearch

/-!
# The roots of an include search (`session.py`, `Session._find_file`)

What it is for a name to lead to a file below a search root does not depend on the order of a
listing: `Follows` takes any child of the name at each component, and `Resolves` asks for a file at
the end. Over a tree in which no two siblings have one name under case folding, that is what the
search finds, in the first root in which there is such a file.

* `slashWalk_below`: the walk never stands outside its root.
* `findFile_firstMatch`: a search returns the file of the first root under which the name resolves,
  and nothing if there is none.

Premises: a `Tree` without symbolic links whose directories can be listed and whose siblings are
told apart under case folding; a build root that is a directory, as in every session that `compile`
makes.

Out of scope: trees with symbolic links, where a name may lead to a file of another name.
-/

namespace Cwhost

open Lib Vfs

namespace FileSearch

/-- `p` is `root`, or lies below it along parent links. -/
def Below (v : VFS) (root p : Path) : Prop := ∃ steps, v.climb steps p = some root

section Resolves

variable (fold : Str → Str) (view : HostView) (v : VFS)

/-- The components lead from one path to another, never above `root`. -/
inductive Follows (root : Path) : Path → List Str → Path → Prop
  | done {p : Path} : Follows root p [] p
  | stay {p q : Path} {component : Str} {rest : List Str}
    (skip : component = [] ∨ component = ['.']) (follows : Follows root p rest q) :
    Follows root p (component :: rest) q
  | up {p d q : Path} {rest : List Str} (above : v.above p = some d) (below : Below v root d)
    (follows : Follows root d rest q) : Follows root p (['.', '.'] :: rest) q
  | down {p child q : Path} {component : Str} {rest : List Str} {entries : List Path}
    (name : IsName component) (dir : view.isDir p = true)
    (listed : hostEntries fold view p = some entries) (mem : child ∈ entries)
    (named : fold (v.pathName child) = fold component) (follows : Follows root child rest q) :
    Follows root p (component :: rest) q

/-- A name leads to a file below a search root, or is the root's own. -/
inductive Resolves (filename : Str) : Path → Path → Prop
  | slashes {root f : Path} (slash : '/' ∈ filename) (dir : view.isDir root = true)
    (follows : Follows fold view v root root (slashComponents filename) f)
    (file : view.isDir f = false) : Resolves filename root f
  | entry {root f : Path} {entries : List Path} (slash : '/' ∉ filename)
    (dir : view.isDir root = true) (listed : hostEntries fold view root = some entries)
    (mem : f ∈ entries) (named : fold (v.pathName f) = fold filename)
    (file : view.isDir f = false) : Resolves filename root f
  | root {root : Path} (slash : '/' ∉ filename) (file : view.isDir root = false)
    (named : fold (v.pathName root) = fold filename) : Resolves filename root root

end Resolves

section Below

variable {v : VFS} {root p q : Path}

theorem Below.refl (v : VFS) (p : Path) : Below v p p := ⟨0, rfl⟩

theorem below_of_above (h : v.above q = some p) (hp : Below v root p) : Below v root q := by
  obtain ⟨steps, hsteps⟩ := hp
  refine ⟨steps + 1, ?_⟩
  rw [VFS.climb, h]
  exact hsteps

theorem below_iff : Below v root p ↔ root = p ∨ ∃ d, v.above p = some d ∧ Below v root d := by
  constructor
  · rintro ⟨steps, h⟩
    cases steps with
    | zero => exact Or.inl (Option.some.inj h).symm
    | succ steps =>
      rw [VFS.climb] at h
      obtain ⟨d, hd, hsteps⟩ := Option.bind_eq_some_iff.mp h
      exact Or.inr ⟨d, hd, steps, hsteps⟩
  · rintro (rfl | ⟨d, hd, hbelow⟩)
    · exact .refl v root
    · exact below_of_above hd hbelow

/-- The escape check finds the root on the way up. -/
theorem isUnder_iff : isUnder v root p = true ↔ Below v root p := by
  induction p with
  | nil =>
    have hnone : ∀ d, v.above [] ≠ some d := fun d h => by
      obtain ⟨name, hname⟩ := above_eq_some h
      cases hname
    rw [isUnder, decide_eq_true_eq, below_iff]
    refine ⟨Or.inl, fun h => h.resolve_right ?_⟩
    rintro ⟨d, hd, -⟩
    exact hnone d hd
  | cons name d ih =>
    rw [isUnder, Bool.or_eq_true, Bool.and_eq_true, decide_eq_true_eq, decide_eq_true_eq, ih,
      below_iff (p := name :: d)]
    refine or_congr Iff.rfl ?_
    unfold VFS.above
    constructor
    · rintro ⟨hroot, hbelow⟩
      exact ⟨d, if_neg hroot, hbelow⟩
    · rintro ⟨d', hd', hbelow⟩
      split at hd'
      · cases hd'
      · obtain rfl := Option.some.inj hd'
        exact ⟨‹_›, hbelow⟩

end Below

section Trees

variable {fold : Str → Str} {env : HostEnv} {t : Tree} {v : VFS}

/-- An entry that is no root of a volume has its own name, and its directory above it. -/
theorem entry_name {name : Str} {d : Path}
    (h : name :: d ≠ v.root (v.volumeFor (name :: d))) :
    v.pathName (name :: d) = name ∧ v.above (name :: d) = some d := ⟨if_neg h, if_neg h⟩

/-- A root of a volume has no name to be found by. -/
theorem entry_of_named (hfold : CaseFolding fold) {name component : Str} {d : Path}
    (hcomponent : component ≠ []) (h : fold (v.pathName (name :: d)) = fold component) :
    name :: d ≠ v.root (v.volumeFor (name :: d)) := by
  intro hroot
  have hempty : v.pathName (name :: d) = [] := if_pos hroot
  rw [hempty] at h
  exact hcomponent (hfold.empty component h.symm)

/-- A file is no root of a volume, if the build root is a directory. -/
theorem entry_of_file (hbuild : t.isDir v.buildRoot = true) {name : Str} {d : Path}
    (hfile : t.isDir (name :: d) = false) : name :: d ≠ v.root (v.volumeFor (name :: d)) := by
  intro hroot
  cases hvolume : v.volumeFor (name :: d) with
  | build =>
    rw [hvolume] at hroot
    rw [hroot] at hfile
    exact absurd hbuild (by rw [show v.buildRoot = v.root .build from rfl, hfile]; simp)
  | host =>
    rw [hvolume] at hroot
    cases hroot

/-- **The walk never stands outside its root.** -/
theorem slashWalk_below (hfold : CaseFolding fold) {root : Path} (components : List Str)
    {p q : Path} (hp : Below v root p)
    (h : slashWalk fold (t.view env) v root p components = .found q) : Below v root q := by
  induction components generalizing p with
  | nil =>
    rw [← Sought.found.inj h]
    exact hp
  | cons component rest ih =>
    obtain ⟨p', hstep, h⟩ := slashWalk_found h
    refine ih ?_ h
    cases hstep with
    | stay skip => exact hp
    | up dots above under => exact isUnder_iff.mp under
    | down name dir listed first =>
      obtain ⟨hmem, hnamed⟩ := find_named first
      obtain ⟨_, rfl, -⟩ := (mem_hostEntries listed).mp hmem
      exact below_of_above (entry_name (entry_of_named hfold name.1 hnamed)).2 hp

/-- No two entries of a directory have one name under case folding. -/
def FoldedApart (fold : Str → Str) (t : Tree) : Prop :=
  ∀ a b dir, t.has (a :: dir) = true → t.has (b :: dir) = true → fold a = fold b → a = b

/-- **One entry of a name.** -/
theorem entry_unique (hapart : FoldedApart fold t) {d q q' : Path} {name : Str}
    {entries : List Path} (hentries : hostEntries fold (t.view env) d = some entries)
    (hq : q ∈ entries) (hq' : q' ∈ entries) (hroot : q ≠ v.root (v.volumeFor q))
    (hroot' : q' ≠ v.root (v.volumeFor q')) (hnamed : fold (v.pathName q) = fold name)
    (hnamed' : fold (v.pathName q') = fold name) : q = q' := by
  obtain ⟨a, rfl, ha⟩ := (mem_hostEntries hentries).mp hq
  obtain ⟨b, rfl, hb⟩ := (mem_hostEntries hentries).mp hq'
  rw [(entry_name hroot).1] at hnamed
  rw [(entry_name hroot').1] at hnamed'
  rw [hapart a b d ha hb (hnamed.trans hnamed'.symm)]

/-- A walk that ends follows the components. -/
theorem follows_of_walk {view : HostView} {root : Path} (components : List Str) {p q : Path}
    (h : slashWalk fold view v root p components = .found q) :
    Follows fold view v root p components q := by
  induction components generalizing p with
  | nil =>
    obtain rfl := Sought.found.inj h
    exact .done
  | cons component rest ih =>
    obtain ⟨p', hstep, h⟩ := slashWalk_found h
    cases hstep with
    | stay skip => exact .stay skip (ih h)
    | up dots above under =>
      rw [dots]
      exact .up above (isUnder_iff.mp under) (ih h)
    | down name dir listed first =>
      obtain ⟨hmem, hnamed⟩ := find_named first
      exact .down name dir listed hmem hnamed (ih h)

/-- **And the walk ends where the components lead**, as each names one child. -/
theorem walk_of_follows (hfold : CaseFolding fold) (hapart : FoldedApart fold t) {root p q : Path}
    {components : List Str} (h : Follows fold (t.view env) v root p components q) :
    slashWalk fold (t.view env) v root p components = .found q := by
  induction h with
  | done => rfl
  | stay skip _ ih => exact (slashWalk_step (.stay skip) _).trans ih
  | up above below _ ih => exact (slashWalk_step (.up rfl above (isUnder_iff.mpr below)) _).trans ih
  | @down p child q component rest entries name dir listed mem named _ ih =>
    obtain ⟨first, hfirst⟩ := exists_named mem named
    obtain ⟨hmem, hnamed⟩ := find_named hfirst
    have hroot : ∀ c ∈ entries, fold (v.pathName c) = fold component →
        c ≠ v.root (v.volumeFor c) := by
      intro c hc hcnamed
      obtain ⟨_, rfl, -⟩ := (mem_hostEntries listed).mp hc
      exact entry_of_named hfold name.1 hcnamed
    have heq : first = child := entry_unique hapart listed hmem mem (hroot first hmem hnamed)
      (hroot child mem named) hnamed named
    rw [heq] at hfirst
    exact (slashWalk_step (.down name dir listed hfirst) _).trans ih

/-- A walk over directories that can be listed is not refused. -/
theorem slashWalk_listable {view : HostView} (hlist : view.Listable) {root : Path}
    (components : List Str) (p : Path) :
    slashWalk fold view v root p components ≠ .refused := by
  induction components generalizing p with
  | nil => exact Sought.noConfusion
  | cons component rest ih =>
    rw [slashWalk]
    split
    · exact ih p
    split
    · split
      · exact Sought.noConfusion
      · split
        · exact ih _
        · exact Sought.noConfusion
    split
    · exact Sought.noConfusion
    · obtain ⟨entries, hentries⟩ := @hostEntries_listable fold view hlist p
      unfold VFS.entriesNamed
      rw [hentries, Option.map_some]
      cases entries.filter fun q => decide (fold (v.pathName q) = fold component) with
      | nil => exact Sought.noConfusion
      | cons child _ => exact ih child

/-- **A lookup in a root finds the file to which the name resolves.** -/
theorem lookIn_found_iff (hfold : CaseFolding fold) (hapart : FoldedApart fold t)
    (hbuild : t.isDir v.buildRoot = true) {filename : Str} {root f : Path} :
    lookIn fold (t.view env) v filename root = .found f ↔
      Resolves fold (t.view env) v filename root f := by
  by_cases hslash : '/' ∈ filename
  · rw [lookIn_slash hslash]
    unfold slashIn
    constructor
    · intro h
      split at h
      · obtain ⟨hwalk, hfile⟩ := fileAt_eq_found.mp h
        exact .slashes hslash ‹_› (follows_of_walk _ hwalk) hfile
      · cases h
    · rintro (⟨-, hdir, hfollows, hfile⟩ | ⟨hplain, -⟩ | ⟨hplain, -⟩)
      · rw [if_pos hdir, walk_of_follows hfold hapart hfollows]
        exact fileAt_eq_found.mpr ⟨rfl, hfile⟩
      · exact absurd hslash hplain
      · exact absurd hslash hplain
  · rw [lookIn_plain hslash]
    constructor
    · intro h
      by_cases hdir : (t.view env).isDir root = true
      · obtain ⟨entries, hentries, -, hmem, hfile, hnamed⟩ := plainIn_found hdir h
        exact .entry hslash hdir hentries hmem hnamed hfile
      · unfold plainIn at h
        rw [if_neg hdir, Option.elim_some] at h
        have hfind := fileNamed_eq_found.mp h
        obtain rfl := List.mem_singleton.mp (List.mem_of_find?_eq_some hfind)
        have hsome := List.find?_some hfind
        rw [Bool.and_eq_true, decide_eq_true_eq] at hsome
        exact .root hslash (Bool.eq_false_iff.mpr hdir) hsome.2
    · rintro (⟨hpath, -⟩ | ⟨-, hdir, hlisted, hmem, hnamed, hfile⟩ | ⟨-, hfile, hnamed⟩)
      · exact absurd hpath hslash
      · rename_i entries
        rw [plainIn_dir hdir, hlisted, Option.elim_some, fileNamed_eq_found]
        obtain ⟨g, hg⟩ := exists_file_named hmem hfile hnamed
        have hgmem := List.mem_of_find?_eq_some hg
        have hgsome := List.find?_some hg
        rw [Bool.and_eq_true, Bool.not_eq_true', decide_eq_true_eq] at hgsome
        have hroot : ∀ c ∈ entries, t.isDir c = false → c ≠ v.root (v.volumeFor c) := by
          intro c hc hcfile
          obtain ⟨_, rfl, -⟩ := (mem_hostEntries hlisted).mp hc
          exact entry_of_file hbuild hcfile
        rw [hg, entry_unique hapart hlisted hgmem hmem (hroot g hgmem hgsome.1)
          (hroot f hmem hfile) hgsome.2 hnamed]
      · unfold plainIn
        rw [if_neg (by rw [hfile]; decide), Option.elim_some, fileNamed_eq_found]
        refine List.find?_cons_of_pos ?_
        rw [hfile, decide_eq_true hnamed]
        rfl

theorem lookIn_listable (hlist : (t.view env).Listable) (filename : Str) (root : Path) :
    lookIn fold (t.view env) v filename root ≠ .refused := by
  by_cases hslash : '/' ∈ filename
  · rw [lookIn_slash hslash]
    unfold slashIn
    split
    · intro h
      have hwalk : slashWalk fold (t.view env) v root root (slashComponents filename) ≠ .refused :=
        slashWalk_listable hlist (slashComponents filename) root
      cases hend : slashWalk fold (t.view env) v root root (slashComponents filename) with
      | refused => exact hwalk hend
      | missing =>
        rw [hend] at h
        cases h
      | found p =>
        rw [hend, fileAt_found] at h
        split at h <;> cases h
    · exact Sought.noConfusion
  · rw [lookIn_plain hslash]
    by_cases hdir : (t.view env).isDir root = true
    · intro h
      obtain ⟨entries, hentries⟩ := @hostEntries_listable fold _ hlist root
      rw [plainIn_refused hdir h] at hentries
      cases hentries
    · unfold plainIn
      rw [if_neg hdir, Option.elim_some]
      unfold fileNamed
      cases List.find? _ [root] <;> exact Sought.noConfusion

/-- A name that resolves leads to a file, in the root or below it. -/
theorem Resolves.below (hfold : CaseFolding fold) (hapart : FoldedApart fold t)
    (hbuild : t.isDir v.buildRoot = true) {filename : Str} {root f : Path}
    (h : Resolves fold (t.view env) v filename root f) :
    t.isDir f = false ∧ Below v root f := by
  cases h with
  | slashes slash dir follows file =>
    exact ⟨file, slashWalk_below hfold _ (.refl v root) (walk_of_follows hfold hapart follows)⟩
  | entry slash dir listed mem named file =>
    obtain ⟨name, rfl, -⟩ := (mem_hostEntries listed).mp mem
    have habove := (entry_name (entry_of_file hbuild file)).2
    exact ⟨file, below_of_above habove (.refl v root)⟩
  | root slash file named => exact ⟨file, .refl v root⟩

/-- **The walk of the code never stands outside its root**, after any number of components. -/
theorem walkComponents_below (hfold : CaseFolding fold) (hlist : (t.view env).Listable)
    {r : Registry} (hs : r.Steady fold (t.view env)) {root : Node} (hroot : r.vfs.Has root)
    (walked : List Str) :
    wp (walkComponents fold (t.view env) root root walked)
      (fun found _ => ∀ n, found = some n → Below r.vfs root.host n.host) (fun _ _ => False) r := by
  refine wp_mono (walkComponents_seeks walked (.refl hs.wf) hs hroot hroot) ?_ ?_
  · rintro found r' ⟨-, hfound, -⟩ n rfl
    exact slashWalk_below hfold walked (.refl r.vfs root.host) hfound.symm
  · rintro e r' ⟨-, hrefused⟩
    exact slashWalk_listable hlist walked root.host hrefused

end Trees

/-- **An include search is first-match and contained.** Over a tree without links whose directories
can be listed and whose siblings are told apart under case folding, in every state of a session, for
every name without colons: the call returns.

* A file it returns is that to which the name resolves under the first root under which it resolves
  at all; the file is this root or lies below it, and it is also found from every session over the
  same tree whose roots are the same up to this one.
* If it returns nothing, the name resolves under no root.
* The search roots are the directory of the file that includes, the user's and the system's.
* The walk over the components of a name with slashes stands in its root or below it after any
  number of them. -/
theorem findFile_firstMatch {fold : Str → Str} {env : HostEnv} {t : Tree}
    {nodeById : Dict Nat Node} {ident : Nat} {buildRoot : Path} {s : FileSearch}
    (hfold : CaseFolding fold) (hlist : (t.view env).Listable) (hapart : FoldedApart fold t)
    (hs : Reached fold (t.view env) nodeById ident buildRoot s)
    (hbuild : t.isDir s.registry.vfs.buildRoot = true) {filename : Str} (hcolon : ':' ∉ filename)
    (fullsearch : Bool) (dependent : Int) :
    (∃ found s', findFile fold (t.view env) filename fullsearch dependent s = .ok found s' ∧
      (∀ f, found = some f → t.isDir f.host = false ∧ ∃ skipped root rest,
        s.rootPaths fullsearch dependent = skipped ++ root :: rest ∧
        (∀ q ∈ skipped, ∀ p, ¬ Resolves fold (t.view env) s.registry.vfs filename q p) ∧
        Resolves fold (t.view env) s.registry.vfs filename root f.host ∧
        Below s.registry.vfs root f.host ∧
        ∀ other rest', Reached fold (t.view env) nodeById ident buildRoot other →
          other.registry.vfs.buildRoot = s.registry.vfs.buildRoot →
          other.rootPaths fullsearch dependent = skipped ++ root :: rest' →
          ∃ f' s', findFile fold (t.view env) filename fullsearch dependent other =
            .ok (some f') s' ∧ f'.host = f.host) ∧
      (found = none → ∀ root ∈ s.rootPaths fullsearch dependent, ∀ p,
        ¬ Resolves fold (t.view env) s.registry.vfs filename root p)) ∧
    wp (includeSearchRoots fullsearch dependent)
      (fun roots _ => roots.map Node.host = s.rootPaths fullsearch dependent)
      (fun _ _ => False) s ∧
    ∀ r, Reads fold (t.view env) s.registry r → r.Steady fold (t.view env) →
      ∀ root, r.vfs.Has root → ∀ walked, walked <+: slashComponents filename →
        wp (walkComponents fold (t.view env) root root walked)
          (fun found _ => ∀ n, found = some n → Below r.vfs root.host n.host)
          (fun _ _ => False) r := by
  have hsteady := hs.steady
  have hresolves : ∀ root, lookIn fold (t.view env) s.registry.vfs filename root = .missing →
      ∀ p, ¬ Resolves fold (t.view env) s.registry.vfs filename root p := by
    intro root hmissing p hp
    rw [← lookIn_found_iff hfold hapart hbuild, hmissing] at hp
    cases hp
  refine ⟨?_, ?_, fun r _ hr root hroot walked _ =>
    walkComponents_below hfold hlist hr hroot walked⟩
  · have hrun := findFile_sought hsteady hcolon fullsearch dependent
    obtain ⟨found, s', hok, hsought⟩ := wp_exists_ok (wp_mono hrun (fun _ _ h => h) fun e s' h => by
      obtain ⟨_, root, _, -, -, hroot⟩ := soughtIn_ends h Sought.noConfusion
      exact lookIn_listable hlist filename root hroot)
    refine ⟨found, s', hok, ?_, ?_⟩
    · rintro f rfl
      obtain ⟨skipped, root, rest, hroots, hskipped, hroot⟩ :=
        soughtIn_ends hsought.symm Sought.noConfusion
      have hresolved := (lookIn_found_iff hfold hapart hbuild).mp hroot
      obtain ⟨hfile, hbelow⟩ := hresolved.below hfold hapart hbuild
      refine ⟨hfile, skipped, root, rest, hroots, fun q hq => hresolves q (hskipped q hq),
        hresolved, hbelow, ?_⟩
      intro other rest' hother hsame hroots'
      have hlook : lookIn fold (t.view env) other.registry.vfs filename =
          lookIn fold (t.view env) s.registry.vfs filename := lookIn_congr hsame filename
      refine findFile_found hother.steady hcolon ?_
      rw [hlook]
      exact soughtIn_first hroots' hskipped hroot Sought.noConfusion
    · rintro rfl root hroot
      exact hresolves root (soughtIn_missing_iff.mp hsought.symm root hroot)
  · exact wp_mono (includeSearchRoots_steady hsteady fullsearch dependent) (fun _ _ h => h.2.2.1)
      fun _ _ h => h

/-- The file of the small tree, from the build root, is there, and it is what the name leads to. -/
theorem findFile_firstMatch_file : ∃ f s',
    findFile id (smallTree.view calm) ['s', '/', 'f'] true 0 treeSearch = .ok (some f) s' ∧
      smallTree.isDir f.host = false ∧ ∃ skipped root rest,
        treeSearch.rootPaths true 0 = skipped ++ root :: rest ∧
        (∀ q ∈ skipped, ∀ p,
          ¬ Resolves id (smallTree.view calm) treeSearch.registry.vfs ['s', '/', 'f'] q p) ∧
        Resolves id (smallTree.view calm) treeSearch.registry.vfs ['s', '/', 'f'] root f.host ∧
        Below treeSearch.registry.vfs root f.host := by
  obtain ⟨⟨found, s', hok, hmatch, -⟩, -⟩ := findFile_firstMatch id_caseFolding
    smallTree_listable (fun _ _ _ _ _ h => h) treeSearch_reached (by decide +kernel)
    (show ':' ∉ ['s', '/', 'f'] by decide) true 0
  have hfound : (okValue (findFile id (smallTree.view calm) ['s', '/', 'f'] true 0
      treeSearch)).join.isSome = true := by decide +kernel
  rw [hok] at hfound
  obtain ⟨f, rfl⟩ := Option.isSome_iff_exists.mp (show found.isSome = true from hfound)
  obtain ⟨hfile, skipped, root, rest, hroots, hskipped, hresolves, hbelow, -⟩ := hmatch f rfl
  exact ⟨f, s', hok, hfile, skipped, root, rest, hroots, hskipped, hresolves, hbelow⟩

end FileSearch

end Cwhost
