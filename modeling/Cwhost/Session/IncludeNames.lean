import Cwhost.Session.IncludeSearch
import Cwhost.Vfs.HfsCompose

/-!
# The spelling of an include (`session.py`, `_find_file`; `vfs.py`, `resolve_hfs`)

Names are compared under case folding, and of several entries that have the name the first in the
order of the listing is taken.

* `lookups_first`: the three lookups return that entry, so that an entry of exactly the name is
  returned when it comes first.
* `findFile_spelling_iff`: two spellings of one path lead to the same file exactly when they are
  `Alike`: a name with slashes is searched for in another way than one without.

Premises: the state is one that searches and reading reach (`Reached`); names are compared through
`fold`, of which `findFile_spelling_iff` asks that it neither makes nor removes backslashes.

Out of scope: paths that cannot be resolved or stat'ed. `Path.resolve` raises a `RuntimeError` on a
loop of symbolic links, and `Path.is_dir` a `PermissionError` below a directory that can be listed
and not searched; both escape. A `HostView` answers for every path.
-/

namespace Cwhost

open Lib Vfs

namespace FileSearch

/-! ## Which entry is taken -/

section First

variable {fold : Str → Str} {view : HostView} {s : FileSearch}

/-- The walk of an HFS path takes the first entry of a name. -/
theorem hfsWalk_name {r : Registry} (hs : r.Steady fold view) {d : Path} {name : Str}
    (hname : IsName name) {entries : List Path}
    (hentries : hostEntries fold view d = some entries) {g : Path}
    (hg : entries.find? (fun q => decide (fold (r.vfs.pathName q) = fold name)) = some g) :
    r.hfsWalk fold view d [name] = .found g := by
  obtain ⟨hempty, hdot, hdots⟩ := hname
  have hfirst : r.first fold view d name = some g := by
    unfold Registry.first
    rw [hs.listed, hentries]
    exact hg
  rw [Registry.hfsWalk, if_neg (not_or.mpr ⟨hdot, hempty⟩), if_neg hdots, hfirst]
  rfl

variable {d : Path} {entries : List Path} {g : Path}

/-- A search for a name takes the first file of that name in the first root that has one. -/
theorem findFile_first (hs : s.Steady fold view) (hdir : view.isDir d = true)
    (hentries : hostEntries fold view d = some entries) {n : Str} (hcolon : ':' ∉ n)
    (hslash : '/' ∉ n) (hg : entries.find? (fun q => !view.isDir q &&
      decide (fold (s.registry.vfs.pathName q) = fold n)) = some g)
    {fullsearch : Bool} {dependent : Int} {skipped rest : List Path}
    (hroots : s.rootPaths fullsearch dependent = skipped ++ d :: rest)
    (hskipped : ∀ q ∈ skipped, lookIn fold view s.registry.vfs n q = .missing) :
    ∃ m s', findFile fold view n fullsearch dependent s = .ok (some m) s' ∧ m.host = g := by
  have hlook : lookIn fold view s.registry.vfs n d = .found g := by
    unfold lookIn
    rw [if_neg hslash, plainIn_dir hdir, hentries, Option.elim_some]
    unfold fileNamed
    rw [hg]
    rfl
  exact findFile_found hs hcolon (soughtIn_first hroots hskipped hlook Sought.noConfusion)

/-- A search for a path with slashes takes the first entry of the last name. -/
theorem findFile_slashes_first (hs : s.Steady fold view) (hdir : view.isDir d = true)
    (hentries : hostEntries fold view d = some entries) {n : Str} (hname : IsName n)
    (hg : entries.find? (fun q => decide (fold (s.registry.vfs.pathName q) = fold n)) = some g)
    {filename : Str} (hcolon : ':' ∉ filename) (hslash : '/' ∈ filename) {fullsearch : Bool}
    {dependent : Int} {skipped rest : List Path} {root : Path}
    (hroots : s.rootPaths fullsearch dependent = skipped ++ root :: rest)
    (hskipped : ∀ q ∈ skipped, lookIn fold view s.registry.vfs filename q = .missing)
    (hroot : view.isDir root = true) {directories : List Str}
    (hcomponents : slashComponents filename = directories ++ [n])
    (hwalk : slashWalk fold view s.registry.vfs root root directories = .found d)
    (hgfile : view.isDir g = false) :
    ∃ m s', findFile fold view filename fullsearch dependent s = .ok (some m) s' ∧ m.host = g := by
  have hlook : lookIn fold view s.registry.vfs filename root = .found g := by
    unfold lookIn slashIn
    rw [if_pos hslash, if_pos hroot, hcomponents, slashWalk_append hwalk,
      slashWalk_name hname hdir, hentries, Option.elim_some, hg]
    show fileAt view (.found g) = .found g
    rw [fileAt_found, hgfile]
    rfl
  exact findFile_found hs hcolon (soughtIn_first hroots hskipped hlook Sought.noConfusion)

/-- An HFS path takes the first entry of the last name. -/
theorem resolveHfs_first {r : Registry} (hs : r.Steady fold view)
    (hentries : hostEntries fold view d = some entries) {n : Str} (hname : IsName n)
    (hg : entries.find? (fun q => decide (fold (r.vfs.pathName q) = fold n)) = some g)
    {path : Str} (hpath : path ≠ []) {cwd : Option Node} (hcwd : ∀ c, cwd = some c → r.vfs.Has c)
    {start : Path} (hstart : r.vfs.hfsStart fold view path (cwd.map Node.host) = some start)
    {directories : List Str} (hcomponents : hfsComponents path = directories ++ [n])
    (hwalk : r.hfsWalk fold view start directories = .found d) :
    ∃ m r', resolveHfs fold view path cwd r = .ok m r' ∧ m.host = g := by
  have hend : r.hfsEnd fold view path (cwd.map Node.host) = some (.found g) := by
    unfold Registry.hfsEnd
    rw [hstart, hcomponents, Option.map_some, hfsWalk_append hwalk,
      hfsWalk_name hs hname hentries hg]
  have hrun := @resolveHfs_spec fold view r hs.wf path cwd hpath hcwd
  rw [hend] at hrun
  obtain ⟨m, r', hok, -, -, hm⟩ :=
    wp_exists_ok (wp_mono hrun (fun _ _ h => h) fun _ _ h => h.2.1 g rfl)
  exact ⟨m, r', hok, (HfsEnd.found.inj (Option.some.inj hm)).symm⟩

end First

/-- **The first entry in the order of the listing is taken.** Let `f` be an entry of the directory
`d`, no directory itself, and `n` its exact name. In every state of a session:

* a search for `n` whose first root with the name is `d` returns the first file of `d` that has the
  name `n` under case folding;
* a search for a path with slashes that ends in `n`, and whose directories lead to `d`, returns the
  first entry of that name, if it is no directory;
* and so does the resolution of an HFS path that ends in `n` and whose directories lead to `d`.

So `f` itself is returned exactly when it is that entry. -/
theorem lookups_first {fold : Str → Str} {view : HostView} {nodeById : Dict Nat Node}
    {ident : Nat} {buildRoot : Path} {s : FileSearch}
    (hs : Reached fold view nodeById ident buildRoot s) {d f : Path} {n : Str}
    {entries : List Path} (hentries : hostEntries fold view d = some entries) (hf : f ∈ entries)
    (hfile : view.isDir f = false) (hn : s.registry.vfs.pathName f = n) :
    (∀ fullsearch dependent skipped rest, ':' ∉ n → '/' ∉ n →
      s.rootPaths fullsearch dependent = skipped ++ d :: rest →
      (∀ q ∈ skipped, lookIn fold view s.registry.vfs n q = .missing) →
      ∃ m s', findFile fold view n fullsearch dependent s = .ok (some m) s' ∧
        entries.find? (fun q => !view.isDir q &&
          decide (fold (s.registry.vfs.pathName q) = fold n)) = some m.host) ∧
    (IsName n → ∃ g,
      entries.find? (fun q => decide (fold (s.registry.vfs.pathName q) = fold n)) = some g ∧
      (∀ filename fullsearch dependent skipped root rest directories, ':' ∉ filename →
        '/' ∈ filename → s.rootPaths fullsearch dependent = skipped ++ root :: rest →
        (∀ q ∈ skipped, lookIn fold view s.registry.vfs filename q = .missing) →
        view.isDir root = true → slashComponents filename = directories ++ [n] →
        slashWalk fold view s.registry.vfs root root directories = .found d →
        view.isDir g = false →
        ∃ m s', findFile fold view filename fullsearch dependent s = .ok (some m) s' ∧
          m.host = g) ∧
      (∀ path cwd start directories, path ≠ [] → (∀ c, cwd = some c → s.registry.vfs.Has c) →
        s.registry.vfs.hfsStart fold view path (cwd.map Node.host) = some start →
        hfsComponents path = directories ++ [n] →
        s.registry.hfsWalk fold view start directories = .found d →
        ∃ m r, resolveHfs fold view path cwd s.registry = .ok m r ∧ m.host = g)) := by
  have hsteady := hs.steady
  have hdir : view.isDir d = true := by
    by_contra hd
    rw [hostEntries_file (Bool.eq_false_iff.mpr hd)] at hentries
    cases hentries
    cases hf
  refine ⟨?_, fun hname => ?_⟩
  · intro fullsearch dependent skipped rest hcolon hslash hroots hskipped
    obtain ⟨g, hg⟩ := exists_file_named hf hfile (congrArg fold hn)
    obtain ⟨m, s', hok, hm⟩ :=
      findFile_first hsteady hdir hentries hcolon hslash hg hroots hskipped
    exact ⟨m, s', hok, hm ▸ hg⟩
  · obtain ⟨g, hg⟩ := exists_named hf (congrArg fold hn)
    refine ⟨g, hg, ?_, ?_⟩
    · intro filename fullsearch dependent skipped root rest directories hcolon hslash hroots
        hskipped hroot hcomponents hwalk hgfile
      exact findFile_slashes_first hsteady hdir hentries hname hg hcolon hslash hroots hskipped
        hroot hcomponents hwalk hgfile
    · intro path cwd start directories hpath hcwd hstart hcomponents hwalk
      exact resolveHfs_first hsteady.registry hentries hname hg hpath hcwd hstart hcomponents hwalk

theorem smallSearch_reached :
    Reached asciiFold smallView .empty 0 [['p']] smallSearch := by
  refine .start (.step .init (.node [['m', '.', 'c'], ['p']]) fun _ h => nomatch h) fun n hn => ?_
  rw [List.mem_singleton.mp hn]
  rfl

/-- The header beside the main file. -/
theorem lookups_first_header :
    ∃ m s', findFile asciiFold smallView ['a', '.', 'h'] false 0 smallSearch = .ok (some m) s' ∧
      [[['a', '.', 'h'], ['p']], [['m', '.', 'c'], ['p']]].find? (fun q => !smallView.isDir q &&
        decide (asciiFold (smallSearch.registry.vfs.pathName q) =
          asciiFold ['a', '.', 'h'])) = some m.host :=
  (lookups_first smallSearch_reached (d := [['p']]) (f := [['a', '.', 'h'], ['p']])
    (by decide +kernel) (by decide) (by decide) (by decide)).1 false 0 [] [] (by decide)
    (by decide) (by decide) (by simp)

/-- The directory `/p` with two files whose names differ by case. -/
def casesView : HostView where
  resolve p := p
  isDir p := decide (p = [] ∨ p = [['p']])
  listdir p :=
    if p = [['p']] then .ok [['a', '.', 'h'], ['A', '.', 'h']]
    else if p = [] then .ok [['p']]
    else .error (notDirectory p)

/-- `/p` is the build root and the only search root. -/
def casesSearch : FileSearch :=
  .start (.init .empty 0 [['p']]) [] [⟨0, [['p']], .build, 2⟩] []

/-- **An exact match does not win over an earlier one.** -/
theorem exactCase_loses : ¬ ∀ (fold : Str → Str) (view : HostView) (buildRoot : Path)
    (s : FileSearch), Reached fold view .empty 0 buildRoot s →
    ∀ (d f : Path) (n : Str) (entries : List Path), hostEntries fold view d = some entries →
    f ∈ entries → view.isDir f = false → s.registry.vfs.pathName f = n →
    ∀ fullsearch dependent skipped rest, ':' ∉ n → '/' ∉ n →
    s.rootPaths fullsearch dependent = skipped ++ d :: rest →
    (∀ q ∈ skipped, lookIn fold view s.registry.vfs n q = .missing) →
    ∃ m s', findFile fold view n fullsearch dependent s = .ok (some m) s' ∧ m.host = f := by
  intro h
  have hreached : Reached asciiFold casesView .empty 0 [['p']] casesSearch := by
    refine .start .init fun n hn => ?_
    rw [List.mem_singleton.mp hn]
    rfl
  obtain ⟨m, s', hok, hm⟩ := h asciiFold casesView [['p']] casesSearch hreached [['p']]
    [['a', '.', 'h'], ['p']] ['a', '.', 'h'] [[['A', '.', 'h'], ['p']], [['a', '.', 'h'], ['p']]]
    (by decide +kernel) (by decide) (by decide) (by decide) true 0 [] [] (by decide) (by decide)
    (by decide) (by simp)
  have hfound : (okValue (findFile asciiFold casesView ['a', '.', 'h'] true 0 casesSearch)).map
      (Option.map Node.host) = some (some [['A', '.', 'h'], ['p']]) := by decide +kernel
  rw [hok] at hfound
  have hhost : m.host = [['A', '.', 'h'], ['p']] := Option.some.inj (Option.some.inj hfound)
  rw [hm] at hhost
  exact absurd hhost (by decide)

/-! ## Two spellings of a path -/

/-- A component that leads somewhere. -/
def isProper (component : Str) : Bool := decide (component ≠ [] ∧ component ≠ ['.'])

/-- The components that lead somewhere. -/
def properComponents (filename : Str) : List Str := (slashComponents filename).filter isProper

/-- What a call returns, a file or nothing, unless it raises. -/
def answer (fold : Str → Str) (view : HostView) (filename : Str) (fullsearch : Bool)
    (dependent : Int) (s : FileSearch) : Option (Option Path) :=
  (okValue (findFile fold view filename fullsearch dependent s)).map (Option.map Node.host)

/-- A name without separators. -/
def Bare (name : Str) : Prop := '/' ∉ name ∧ '\\' ∉ name ∧ IsName name

/-- Some root refuses before any has the name. -/
def Stops (look : Path → Sought) (roots : List Path) : Prop :=
  ∃ skipped root rest, roots = skipped ++ root :: rest ∧ (∀ q ∈ skipped, look q = .missing) ∧
    look root = .refused

section Alike

variable (fold : Str → Str) (view : HostView) (v : VFS)

/-- In the first root that has a file of the name, it is the first entry of the name: no directory
comes before it. -/
def Unobstructed (name : Str) (roots : List Path) : Prop :=
  ∀ skipped root rest f entries, roots = skipped ++ root :: rest →
    (∀ q ∈ skipped, plainIn fold view v name q = .missing) →
    plainIn fold view v name root = .found f → hostEntries fold view root = some entries →
    entries.find? (fun q => decide (fold (v.pathName q) = fold name)) = some f

/-- When two spellings of a path are searched for alike. -/
inductive Alike (roots : List Path) : Str → Str → Prop
  | slashes {a b : Str} (ha : '/' ∈ a) (hb : '/' ∈ b) : Alike roots a b
  | plain {a b : Str} (ha : '/' ∉ a) (hb : '/' ∉ b) (h : fold a = fold b) : Alike roots a b
  /-- A name alone, and the same name with slashes before or after it. -/
  | bare {a b : Str} (ha : Bare a) (hb : '/' ∈ b) (h : Unobstructed fold view v a roots) :
    Alike roots a b
  | bare' {a b : Str} (ha : '/' ∈ a) (hb : Bare b) (h : Unobstructed fold view v b roots) :
    Alike roots a b
  /-- There is no file under either. -/
  | missing {a b : Str} (ha : ∀ root ∈ roots, lookIn fold view v a root = .missing)
      (hb : ∀ root ∈ roots, lookIn fold view v b root = .missing) : Alike roots a b
  | stops {a b : Str} (ha : Stops (lookIn fold view v a) roots)
      (hb : Stops (lookIn fold view v b) roots) : Alike roots a b

end Alike

section Spelling

variable {fold : Str → Str} {view : HostView} {v : VFS} {roots : List Path}

/-- Components that lead nowhere are skipped. -/
theorem slashWalk_proper (root : Path) (components : List Str) (p : Path) :
    slashWalk fold view v root p (components.filter isProper) =
      slashWalk fold view v root p components := by
  induction components generalizing p with
  | nil => rfl
  | cons component rest ih =>
    by_cases hskip : component = [] ∨ component = ['.']
    · have hproper : ¬ isProper component = true := by
        rcases hskip with rfl | rfl <;> decide
      rw [List.filter_cons_of_neg hproper, ih]
      conv_rhs => rw [slashWalk, if_pos hskip]
    · have hproper : isProper component = true := decide_eq_true (not_or.mp hskip)
      rw [List.filter_cons_of_pos hproper]
      simp only [slashWalk, ih]

theorem slashIn_proper {a b : Str} (h : properComponents a = properComponents b) :
    slashIn fold view v a = slashIn fold view v b := by
  funext root
  unfold slashIn
  rw [← slashWalk_proper root (slashComponents a), ← slashWalk_proper root (slashComponents b)]
  exact congrArg (fun components => if view.isDir root = true then
    fileAt view (slashWalk fold view v root root components) else .missing) h

theorem plainIn_folded {a b : Str} (h : fold a = fold b) :
    plainIn fold view v a = plainIn fold view v b := by
  funext root
  have hfile : fileNamed fold view v a = fileNamed fold view v b := by
    funext entries
    unfold fileNamed
    rw [h]
  unfold plainIn VFS.entriesNamed
  rw [h, hfile]

/-- The characters of a component are those of the text. -/
theorem mem_of_splitOn {separator : Char} {text component : Str}
    (h : component ∈ text.splitOn separator) : ∀ c ∈ component, c ∈ text := by
  induction text generalizing component with
  | nil =>
    rw [List.splitOn_nil, List.mem_singleton] at h
    rw [h]
    exact fun c hc => hc
  | cons x text ih =>
    rw [List.splitOn_cons_eq_if_modifyHead] at h
    split at h
    · rcases List.mem_cons.mp h with rfl | h
      · exact fun c hc => absurd hc List.not_mem_nil
      · exact fun c hc => List.mem_cons_of_mem x (ih h c hc)
    · obtain ⟨first, parts, hparts⟩ :=
        List.exists_cons_of_ne_nil (List.splitOn_ne_nil separator text)
      rw [hparts] at h ih
      rcases List.mem_cons.mp h with rfl | h
      · intro c hc
        rcases List.mem_cons.mp hc with rfl | hc
        · exact List.mem_cons_self
        · exact List.mem_cons_of_mem x (ih List.mem_cons_self c hc)
      · exact fun c hc => List.mem_cons_of_mem x (ih (List.mem_cons_of_mem first h) c hc)

/-- Backslashes separate. -/
theorem backslash_not_mem {filename component : Str} (h : component ∈ slashComponents filename) :
    '\\' ∉ component := by
  intro hc
  obtain ⟨c, -, hmap⟩ := List.mem_map.mp (mem_of_splitOn h _ hc)
  split at hmap
  · exact absurd hmap (by decide)
  · rename_i hne
    exact hne hmap

theorem slashComponents_plain {name : Str} (h : '/' ∉ name) (hback : '\\' ∉ name) :
    slashComponents name = [name] := by
  have hmap : name.map (fun c => if c = '\\' then '/' else c) = name := by
    refine (List.map_congr_left fun c hc => if_neg ?_).trans (List.map_id name)
    rintro rfl
    exact hback hc
  unfold slashComponents
  rw [hmap, List.splitOn_eq_singleton h]

theorem Bare.properComponents {name : Str} (h : Bare name) :
    FileSearch.properComponents name = [name] := by
  obtain ⟨hslash, hback, hempty, hdot, -⟩ := h
  unfold FileSearch.properComponents
  rw [slashComponents_plain hslash hback]
  exact List.filter_cons_of_pos (decide_eq_true ⟨hempty, hdot⟩)

/-- A name alone in a path with slashes. -/
theorem slashIn_bare {root : Path} (hd : view.isDir root = true) {filename name : Str}
    (h : properComponents filename = [name]) (hname : IsName name) :
    slashIn fold view v filename root =
      (hostEntries fold view root).elim .refused fun entries =>
        (entries.find? fun q => decide (fold (v.pathName q) = fold name)).elim .missing
          fun q => fileAt view (.found q) := by
  unfold slashIn
  rw [if_pos hd, ← slashWalk_proper]
  show fileAt view (slashWalk fold view v root root (properComponents filename)) = _
  rw [h, slashWalk_name hname hd]
  cases hostEntries fold view root with
  | none => rfl
  | some entries =>
    rw [Option.elim_some, Option.elim_some]
    cases entries.find? fun q => decide (fold (v.pathName q) = fold name) <;> rfl

/-- What it leads to is an entry of the root. -/
theorem slashIn_bare_found {root : Path} (hd : view.isDir root = true) {filename name : Str}
    (h : properComponents filename = [name]) (hname : IsName name) {f : Path}
    (hf : slashIn fold view v filename root = .found f) :
    ∃ entries, hostEntries fold view root = some entries ∧ f ∈ entries := by
  rw [slashIn_bare hd h hname] at hf
  cases hentries : hostEntries fold view root with
  | none =>
    rw [hentries] at hf
    cases hf
  | some entries =>
    rw [hentries, Option.elim_some] at hf
    cases hfirst : entries.find? fun q => decide (fold (v.pathName q) = fold name) with
    | none =>
      rw [hfirst] at hf
      cases hf
    | some q =>
      rw [hfirst, Option.elim_some, fileAt_found] at hf
      split at hf
      · cases hf
      · obtain rfl := Sought.found.inj hf
        exact ⟨entries, rfl, List.mem_of_find?_eq_some hfirst⟩

/-- Where no file has the name, the path leads nowhere. -/
theorem slashIn_missing {root : Path} (hd : view.isDir root = true) {filename name : Str}
    (h : properComponents filename = [name]) (hname : IsName name)
    (hplain : plainIn fold view v name root = .missing) :
    slashIn fold view v filename root = .missing := by
  rw [plainIn_dir hd] at hplain
  rw [slashIn_bare hd h hname]
  cases hentries : hostEntries fold view root with
  | none =>
    rw [hentries] at hplain
    cases hplain
  | some entries =>
    rw [Option.elim_some]
    cases hfirst : entries.find? fun q => decide (fold (v.pathName q) = fold name) with
    | none => rfl
    | some q =>
      rw [Option.elim_some, fileAt_found]
      -- A first entry that were a file would have been found.
      by_contra hfile
      have hq : view.isDir q = false := by
        by_contra hdir
        rw [Bool.not_eq_false] at hdir
        exact hfile (if_pos hdir)
      have hnone : ∀ q ∈ entries, ¬ (!view.isDir q &&
          decide (fold (v.pathName q) = fold name)) = true := by
        rw [hentries, Option.elim_some] at hplain
        refine List.find?_eq_none.mp ?_
        unfold fileNamed at hplain
        cases hfind : entries.find? fun q =>
            !view.isDir q && decide (fold (v.pathName q) = fold name) with
        | none => rfl
        | some f =>
          rw [hfind] at hplain
          cases hplain
      refine hnone q (List.mem_of_find?_eq_some hfirst) ?_
      have hsome := List.find?_some hfirst
      rw [hq, hsome]
      rfl

/-- **A name alone and the same name with slashes** are searched for alike, if no directory is in
the way. -/
theorem soughtIn_bare (hroots : ∀ root ∈ roots, view.isDir root = true) {filename name : Str}
    (h : properComponents filename = [name]) (hname : IsName name)
    (hclear : Unobstructed fold view v name roots) :
    soughtIn (slashIn fold view v filename) roots = soughtIn (plainIn fold view v name) roots := by
  have hskip : ∀ skipped : List Path, (∀ q ∈ skipped, q ∈ roots) →
      (∀ q ∈ skipped, plainIn fold view v name q = .missing) →
      ∀ q ∈ skipped, slashIn fold view v filename q = .missing :=
    fun skipped hmem hs q hq => slashIn_missing (hroots q (hmem q hq)) h hname (hs q hq)
  cases hsought : soughtIn (plainIn fold view v name) roots with
  | missing =>
    exact soughtIn_missing_iff.mpr (hskip roots (fun _ hq => hq) (soughtIn_missing_iff.mp hsought))
  | refused =>
    obtain ⟨skipped, root, rest, hsplit, hskipped, hroot⟩ :=
      soughtIn_ends hsought Sought.noConfusion
    have hd := hroots root (by rw [hsplit]; simp)
    have hslash : slashIn fold view v filename root = .refused := by
      rw [slashIn_bare hd h hname, plainIn_refused hd hroot]
      rfl
    exact soughtIn_first hsplit (hskip skipped (by rw [hsplit]; simp +contextual) hskipped) hslash
      Sought.noConfusion
  | found f =>
    obtain ⟨skipped, root, rest, hsplit, hskipped, hroot⟩ :=
      soughtIn_ends hsought Sought.noConfusion
    have hd := hroots root (by rw [hsplit]; simp)
    obtain ⟨entries, hentries, -, -, hfile, -⟩ := plainIn_found hd hroot
    have hslash : slashIn fold view v filename root = .found f := by
      rw [slashIn_bare hd h hname, hentries, Option.elim_some,
        hclear skipped root rest f entries hsplit hskipped hroot hentries, Option.elim_some,
        fileAt_found, hfile]
      rfl
    exact soughtIn_first hsplit (hskip skipped (by rw [hsplit]; simp +contextual) hskipped) hslash
      Sought.noConfusion

/-- A walk over a tree ends at what its last component names, or at a directory. -/
theorem slashWalk_last {env : HostEnv} {t : Tree} {root f : Path} (hfile : t.isDir f = false)
    (components : List Str) (hproper : ∀ component ∈ components, isProper component = true)
    {p : Path} (hp : t.has p = true)
    (h : slashWalk fold (t.view env) v root p components = .found f) :
    components = [] ∧ f = p ∨ ∃ last, components.getLast? = some last ∧ IsName last ∧
      fold (v.pathName f) = fold last := by
  induction components generalizing p with
  | nil => exact Or.inl ⟨rfl, (Sought.found.inj h).symm⟩
  | cons component rest ih =>
    right
    obtain ⟨hcomponent, hrest⟩ := List.forall_mem_cons.mp hproper
    obtain ⟨hempty, hdot⟩ := of_decide_eq_true hcomponent
    -- The walk from the next path: what its last component names is what the last of all names.
    have hnext : ∀ {q : Path}, t.has q = true →
        slashWalk fold (t.view env) v root q rest = .found f →
        rest = [] ∧ f = q ∨ ∃ last, (component :: rest).getLast? = some last ∧ IsName last ∧
          fold (v.pathName f) = fold last := by
      intro q hq hwalk
      refine (ih hrest hq hwalk).imp_right ?_
      rintro ⟨last, hlast, hname⟩
      exact ⟨last, by rw [List.getLast?_cons, hlast]; rfl, hname⟩
    obtain ⟨q, hstep, hwalk⟩ := slashWalk_found h
    cases hstep with
    | stay skip => exact absurd skip (not_or.mpr ⟨hempty, hdot⟩)
    | up dots above under =>
      obtain ⟨name, rfl⟩ := above_eq_some above
      have hq : t.isDir q = true := DirTree.isDir_of_has hp
      refine (hnext (DirTree.has_of_isDir hq) hwalk).resolve_left ?_
      rintro ⟨-, rfl⟩
      rw [hq] at hfile
      cases hfile
    | down name dir listed first =>
      obtain ⟨hmem, hnamed⟩ := find_named first
      obtain ⟨_, -, hq⟩ := (mem_hostEntries listed).mp hmem
      rcases hnext hq hwalk with ⟨rfl, rfl⟩ | hlast
      · exact ⟨component, rfl, name, hnamed⟩
      · exact hlast

/-- `str.casefold` leaves backslashes alone and makes none. -/
def BackslashKept (fold : Str → Str) : Prop := ∀ name, '\\' ∈ fold name ↔ '\\' ∈ name

/-- A file that is found both by a name without slashes and by a path with slashes: the name is one
component. -/
theorem bare_of_found {env : HostEnv} {t : Tree} (hback : BackslashKept fold) {a b : Str}
    {root root' f : Path} (ha : '/' ∉ a) (hab : properComponents b = properComponents a)
    (hroot : t.isDir root = true) (hroot' : t.isDir root' = true)
    (hplain : plainIn fold (t.view env) v a root = .found f)
    (hslash : slashIn fold (t.view env) v b root' = .found f) : Bare a := by
  obtain ⟨-, -, -, -, hfile, hnamed⟩ := plainIn_found hroot hplain
  have hwalk : slashWalk fold (t.view env) v root' root' (properComponents b) = .found f := by
    have hdir : (t.view env).isDir root' = true := hroot'
    unfold slashIn at hslash
    rw [if_pos hdir, ← slashWalk_proper] at hslash
    change fileAt _ (slashWalk fold (t.view env) v root' root' (properComponents b)) = _ at hslash
    cases hend : slashWalk fold (t.view env) v root' root' (properComponents b) with
    | missing =>
      rw [hend] at hslash
      cases hslash
    | refused =>
      rw [hend] at hslash
      cases hslash
    | found q =>
      rw [hend, fileAt_found] at hslash
      split at hslash
      · cases hslash
      · exact hslash
  have hproper : ∀ component ∈ properComponents b, isProper component = true :=
    fun component hc => (List.mem_filter.mp hc).2
  obtain ⟨last, hlast, hname, hfold⟩ :=
    (slashWalk_last hfile _ hproper (DirTree.has_of_isDir hroot') hwalk).resolve_left (by
      rintro ⟨-, rfl⟩
      have hdir : (t.view env).isDir f = true := hroot'
      rw [hdir] at hfile
      cases hfile)
  have hmem : last ∈ properComponents b := List.mem_of_getLast? hlast
  have hbackslash : '\\' ∉ a := by
    have hno := backslash_not_mem (List.mem_filter.mp hmem).1
    rwa [← hback, ← hfold, hnamed, hback] at hno
  rw [hab, properComponents, slashComponents_plain ha hbackslash] at hmem
  have hlast_eq : last = a := List.mem_singleton.mp (List.mem_filter.mp hmem).1
  exact ⟨ha, hbackslash, hlast_eq ▸ hname⟩

/-- If the search for the path finds the same file, no directory was in the way. -/
theorem unobstructed_of_found {env : HostEnv} {t : Tree}
    (hroots : ∀ root ∈ roots, t.isDir root = true) {filename name : Str}
    (h : properComponents filename = [name]) (hname : IsName name) {f : Path}
    (hplain : soughtIn (plainIn fold (t.view env) v name) roots = .found f)
    (hslash : soughtIn (slashIn fold (t.view env) v filename) roots = .found f) :
    Unobstructed fold (t.view env) v name roots := by
  intro skipped root rest f' entries hsplit hskipped hroot hentries
  have hd : ∀ q ∈ skipped ++ root :: rest, (t.view env).isDir q = true := hsplit ▸ hroots
  have hdroot := hd root (by simp)
  rw [soughtIn_first hsplit hskipped hroot Sought.noConfusion] at hplain
  obtain rfl := Sought.found.inj hplain
  obtain ⟨entries', hentries', -, hmem, hfile, hnamed⟩ := plainIn_found hdroot hroot
  rw [hentries] at hentries'
  obtain rfl := Option.some.inj hentries'
  obtain ⟨g, hg⟩ := exists_named hmem hnamed
  rw [hg]
  by_contra hne
  -- The directory in the way ends the walk in this root, so that the file is found in a later one.
  have hskip : ∀ q ∈ skipped, slashIn fold (t.view env) v filename q = .missing :=
    fun q hq => slashIn_missing (hd q (by simp [hq])) h hname (hskipped q hq)
  have hat : slashIn fold (t.view env) v filename root = fileAt (t.view env) (.found g) := by
    rw [slashIn_bare hdroot h hname, hentries, Option.elim_some, hg, Option.elim_some]
  rw [fileAt_found] at hat
  have hlater : soughtIn (slashIn fold (t.view env) v filename) rest = .found f' := by
    rw [hsplit, soughtIn_skip hskip, soughtIn, hat] at hslash
    split at hslash
    · exact hslash
    · exact absurd (congrArg some (Sought.found.inj hslash)) hne
  obtain ⟨skipped', root', rest', hsplit', -, hroot'⟩ := soughtIn_ends hlater Sought.noConfusion
  have hdroot' := hd root' (by rw [hsplit']; simp)
  have hsame : root' = root := by
    obtain ⟨n, rfl, -⟩ := (mem_hostEntries hentries).mp hmem
    obtain ⟨entries'', hentries'', hmem'⟩ := slashIn_bare_found hdroot' h hname hroot'
    obtain ⟨n', heq, -⟩ := (mem_hostEntries hentries'').mp hmem'
    exact (List.cons.inj heq).2.symm
  rw [hsame, hat] at hroot'
  split at hroot'
  · cases hroot'
  · exact hne (congrArg some (Sought.found.inj hroot'))

/-- **Searched for alike, found alike.** -/
theorem Alike.same (hroots : ∀ root ∈ roots, view.isDir root = true) {a b : Str}
    (hab : properComponents a = properComponents b) (h : Alike fold view v roots a b) :
    soughtIn (lookIn fold view v a) roots = soughtIn (lookIn fold view v b) roots := by
  have hbare : ∀ {a b : Str}, properComponents a = properComponents b → Bare a → '/' ∈ b →
      Unobstructed fold view v a roots →
      soughtIn (lookIn fold view v a) roots = soughtIn (lookIn fold view v b) roots := by
    intro a b hab ha hb hclear
    have hcomponents : properComponents b = [a] := hab.symm.trans ha.properComponents
    rw [lookIn_plain ha.1, lookIn_slash hb, soughtIn_bare hroots hcomponents ha.2.2 hclear]
  have hstops : ∀ {look : Path → Sought}, Stops look roots → soughtIn look roots = .refused := by
    rintro look ⟨skipped, root, rest, hsplit, hskipped, hroot⟩
    exact soughtIn_first hsplit hskipped hroot Sought.noConfusion
  cases h with
  | slashes ha hb => rw [lookIn_slash ha, lookIn_slash hb, slashIn_proper hab]
  | plain ha hb h => rw [lookIn_plain ha, lookIn_plain hb, plainIn_folded h]
  | bare ha hb h => exact hbare hab ha hb h
  | bare' ha hb h => exact (hbare hab.symm hb ha h).symm
  | missing ha hb => rw [soughtIn_missing_iff.mpr ha, soughtIn_missing_iff.mpr hb]
  | stops ha hb => rw [hstops ha, hstops hb]

/-- **Found alike, searched for alike**, over a tree without links. -/
theorem alike_of_same {env : HostEnv} {t : Tree} (hback : BackslashKept fold)
    (hroots : ∀ root ∈ roots, t.isDir root = true) {a b : Str}
    (hab : properComponents a = properComponents b)
    (h : soughtIn (lookIn fold (t.view env) v a) roots =
      soughtIn (lookIn fold (t.view env) v b) roots) :
    Alike fold (t.view env) v roots a b := by
  have hbare : ∀ {a b : Str} {f : Path}, '/' ∉ a → '/' ∈ b →
      properComponents a = properComponents b →
      soughtIn (lookIn fold (t.view env) v a) roots = .found f →
      soughtIn (lookIn fold (t.view env) v b) roots = .found f →
      Bare a ∧ Unobstructed fold (t.view env) v a roots := by
    intro a b f ha hb hab hfa hfb
    rw [lookIn_plain ha] at hfa
    rw [lookIn_slash hb] at hfb
    obtain ⟨_, root, _, hsplit, -, hroot⟩ := soughtIn_ends hfa Sought.noConfusion
    obtain ⟨_, root', _, hsplit', -, hroot'⟩ := soughtIn_ends hfb Sought.noConfusion
    have hbare := bare_of_found hback ha hab.symm (hroots root (by rw [hsplit]; simp))
      (hroots root' (by rw [hsplit']; simp)) hroot hroot'
    have hcomponents : properComponents b = [a] := hab.symm.trans hbare.properComponents
    exact ⟨hbare, unobstructed_of_found hroots hcomponents hbare.2.2 hfa hfb⟩
  cases hsought : soughtIn (lookIn fold (t.view env) v a) roots with
  | missing =>
    rw [hsought] at h
    exact .missing (soughtIn_missing_iff.mp hsought) (soughtIn_missing_iff.mp h.symm)
  | refused =>
    rw [hsought] at h
    exact .stops (soughtIn_ends hsought Sought.noConfusion)
      (soughtIn_ends h.symm Sought.noConfusion)
  | found f =>
    rw [hsought] at h
    by_cases ha : '/' ∈ a
    · by_cases hb : '/' ∈ b
      · exact .slashes ha hb
      · obtain ⟨hbare, hclear⟩ := hbare hb ha hab.symm h.symm hsought
        exact .bare' ha hbare hclear
    · by_cases hb : '/' ∈ b
      · obtain ⟨hbare, hclear⟩ := hbare ha hb hab hsought h.symm
        exact .bare hbare hb hclear
      · rw [lookIn_plain ha] at hsought
        rw [lookIn_plain hb] at h
        obtain ⟨_, root, _, hsplit, -, hroot⟩ := soughtIn_ends hsought Sought.noConfusion
        obtain ⟨_, root', _, hsplit', -, hroot'⟩ := soughtIn_ends h.symm Sought.noConfusion
        obtain ⟨-, -, -, -, -, hfa⟩ := plainIn_found (hroots root (by rw [hsplit]; simp)) hroot
        obtain ⟨-, -, -, -, -, hfb⟩ := plainIn_found (hroots root' (by rw [hsplit']; simp)) hroot'
        exact .plain ha hb (hfa.symm.trans hfb)

/-- What a call answers is what the name means. -/
theorem answer_eq {s : FileSearch} (hs : s.Steady fold view) {filename : Str}
    (h : ':' ∉ filename) (fullsearch : Bool) (dependent : Int) :
    answer fold view filename fullsearch dependent s =
      Sought.answer (soughtIn (lookIn fold view s.registry.vfs filename)
        (s.rootPaths fullsearch dependent)) := by
  have hrun := findFile_sought hs h fullsearch dependent
  unfold answer
  cases hcall : findFile fold view filename fullsearch dependent s with
  | error e s' =>
    rw [wp_of_error hrun hcall]
    rfl
  | ok found s' =>
    rw [← wp_of_ok hrun hcall]
    cases found <;> rfl

end Spelling

/-- **Exactly when two spellings of a path have one answer.** Let two names without colons have the
same components, over directories as search roots. In every state of a session the calls have the
same answer if the spellings are searched for alike; over a tree without links, only then. -/
theorem findFile_spelling_iff {fold : Str → Str} {view : HostView} {nodeById : Dict Nat Node}
    {ident : Nat} {buildRoot : Path} {s : FileSearch}
    (hs : Reached fold view nodeById ident buildRoot s) {fullsearch : Bool} {dependent : Int}
    (hroots : ∀ root ∈ s.rootPaths fullsearch dependent, view.isDir root = true) {a b : Str}
    (ha : ':' ∉ a) (hb : ':' ∉ b) (hab : properComponents a = properComponents b) :
    (Alike fold view s.registry.vfs (s.rootPaths fullsearch dependent) a b →
      answer fold view a fullsearch dependent s = answer fold view b fullsearch dependent s) ∧
    ∀ (env : HostEnv) (t : Tree), view = t.view env → BackslashKept fold →
      answer fold view a fullsearch dependent s = answer fold view b fullsearch dependent s →
      Alike fold view s.registry.vfs (s.rootPaths fullsearch dependent) a b := by
  rw [answer_eq hs.steady ha, answer_eq hs.steady hb, Sought.answer_inj]
  refine ⟨Alike.same hroots hab, ?_⟩
  rintro env t rfl hback hsame
  exact alike_of_same hback hroots hab hsame

/-- A doubled slash. -/
theorem findFile_spelling_iff_doubled :
    answer asciiFold smallView ['.', '/', 'a', '.', 'h'] false 0 smallSearch =
      answer asciiFold smallView ['.', '/', '/', 'a', '.', 'h'] false 0 smallSearch :=
  (findFile_spelling_iff smallSearch_reached (by decide) (by decide) (by decide) (by decide)).1
    (.slashes (by decide) (by decide))

/-- **A backslash alone does not separate.** -/
theorem findFile_spelling_differs : ¬ ∀ (fold : Str → Str) (view : HostView) (buildRoot : Path)
    (s : FileSearch), Reached fold view .empty 0 buildRoot s →
    ∀ (fullsearch : Bool) (dependent : Int),
    (∀ root ∈ s.rootPaths fullsearch dependent, view.isDir root = true) →
    ∀ a b : Str, ':' ∉ a → ':' ∉ b → properComponents a = properComponents b →
    answer fold view a fullsearch dependent s = answer fold view b fullsearch dependent s := by
  intro h
  have hsame := h id (smallTree.view calm) [['d'], ['p']] treeSearch treeSearch_reached true 0
    (by decide +kernel) ['s', '\\', 'f'] ['s', '/', 'f'] (by decide) (by decide) (by decide)
  exact absurd hsame (by decide +kernel)

end FileSearch

end Cwhost
