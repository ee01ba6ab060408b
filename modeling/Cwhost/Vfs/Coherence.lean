import Cwhost.Vfs.Mutations

/-!
# When the listing caches are coherent

`invalidate_path` drops the listings on the way from a path to the root of its volume. That is
enough for a change of one entry, and not for four kinds of change: a directory moved with what is
below it; the build root, one of its ancestors or its sidecar made or removed, which a directory of
the Host volume lists; a call that fails after it has made an entry, and drops nothing; and a named
fork written into an existing directory.

* `listing`, `Coherent`: what `children` is to return.
* `SafeAt`: no listing is cached that a change of these kinds makes wrong.
* `run_coherent`: in every run of safe operations the caches are coherent throughout.
* `rename_stale`: a run without that where they are not.

Premises: a `Tree`, which only the operations of the run change.

Out of scope: other processes that change the tree, and symbolic links.
-/

namespace Cwhost.Vfs

open Lib

/-! ## Listings of the tree -/

section Order

variable (fold : Str → Str)

theorem nameLe_total (a b : Str) : nameLe fold a b ∨ nameLe fold b a := le_total _ _

theorem nameLe_trans {a b c : Str} (h : nameLe fold a b) (h' : nameLe fold b c) :
    nameLe fold a c := le_trans h h'

theorem nameLe_antisymm {a b : Str} (h : nameLe fold a b) (h' : nameLe fold b a) : a = b :=
  (Prod.mk.inj (toLex_inj.mp (le_antisymm h h'))).2

instance : Std.Total (nameLe fold) := ⟨nameLe_total fold⟩

instance : IsTrans Str (nameLe fold) := ⟨fun _ _ _ => nameLe_trans fold⟩

/-- The sorted order of names does not depend on the order they come in. -/
theorem sortedNames_congr {l l' : List Str} (h : l.Perm l') :
    sortedNames fold l = sortedNames fold l' := by
  have hperm : (sortedNames fold l).Perm (sortedNames fold l') :=
    ((List.perm_insertionSort _ l).trans h).trans (List.perm_insertionSort _ l').symm
  exact hperm.eq_of_pairwise (fun _ _ _ _ => nameLe_antisymm fold)
    (List.pairwise_insertionSort _ l) (List.pairwise_insertionSort _ l')

end Order

/-- A listing depends on the entries of the directory only. -/
theorem listing_congr {fold : Str → Str} {t t' : Tree} {d : Path}
    (h : ∀ n, t'.has (n :: d) = t.has (n :: d)) : listing fold t' d = listing fold t d := by
  rw [listing_eq, listing_eq]
  refine congrArg _ (sortedNames_congr fold ?_)
  refine (List.perm_ext_iff_of_nodup (t'.nodup_names d) (t.nodup_names d)).mpr fun n => ?_
  rw [DirTree.mem_names, DirTree.mem_names, h]

/-! ## Coherence -/

/-- `vfs.node(path).children()`. -/
def childrenOf (fold : Str → Str) (env : HostEnv) (p : Path) : WorldM (List Node) := do
  let n ← onVfs env (node · p)
  onVfs env (children fold · n)

/-- **`children` of every node, cached or not, returns the listing of the current tree.** -/
def Coherent (fold : Str → Str) (w : World) : Prop :=
  ∀ (env : HostEnv) (p : Path), (∀ t q, env.deny t (.listdir q) = none) →
    ∃ r w', childrenOf fold env p w = .ok r w' ∧ r.map Node.host = listing fold w.tree p

/-- A listing of `d` is cached. -/
def World.Cached (w : World) (d : Path) : Prop :=
  ∃ r, w.registry.vfs.childrenCache.get? (w.registry.vfs.volumeFor d, d) = some r

/-- The cached listings are those of the tree. -/
structure Inv (fold : Str → Str) (w : World) : Prop where
  wf : w.registry.vfs.WF fold
  fresh : ∀ {d r}, w.registry.vfs.childrenCache.get? (w.registry.vfs.volumeFor d, d) = some r →
    r.map Node.host = listing fold w.tree d

section Coherence

variable {fold : Str → Str} {env : HostEnv} {w : World} {t' : Tree}

theorem wp_onTree {α : Type} {x : EStateM Exc Tree α} {Q : α → World → Prop}
    {E : Exc → World → Prop} : wp (onTree x) Q E w ↔
      wp x (fun a t => Q a { w with tree := t }) (fun e t => E e { w with tree := t }) w.tree :=
  wp_zoom

theorem wp_onVfs {α : Type} {x : HostView → VfsM α} {Q : α → World → Prop}
    {E : Exc → World → Prop} : wp (onVfs env x) Q E w ↔
      wp (x (w.tree.view env)) (fun a s => Q a { w with registry := s })
        (fun e s => E e { w with registry := s }) w.registry := by
  simp only [onVfs, wp_bind, wp_get, wp_zoom]

theorem wp_invalidate {p : Path} {Q : Unit → World → Prop} {E : Exc → World → Prop} :
    wp (onVfs env (invalidatePath · p)) Q E w ↔
      Q () { w with registry := { w.registry with vfs := w.registry.vfs.invalidate p } } := by
  rw [wp_onVfs]
  rfl

/-- What the host lists for a node is the listing of the tree. -/
theorem hosts_of_lists {n : Node} {r : List Node} (h : Lists fold (w.tree.view env) n r) :
    r.map Node.host = listing fold w.tree n.host := by
  rw [listing]
  split
  · rename_i hd
    obtain ⟨names, hl, hr⟩ := h.dir hd
    rw [hr, Tree.view_listdir_ok hd hl]
    rfl
  · rename_i hd
    rw [h.file (Bool.eq_false_iff.mpr hd)]
    rfl

/-- The node of a path, in a world that differs by nodes only. -/
structure NodeAt (w w' : World) (p : Path) (n : Node) : Prop where
  tree : w'.tree = w.tree
  interned : Interned w.registry w'.registry
  host : n.host = p
  volume : n.volume = w'.registry.vfs.volumeFor p

theorem nodeAt_spec (hwf : w.registry.vfs.WF fold) (p : Path) :
    wp (onVfs env (node · p)) (fun n w' => NodeAt w w' p n ∧ w'.registry.vfs.WF fold)
      (fun _ _ => False) w := by
  rw [wp_onVfs]
  obtain ⟨hi, hwf', hhost, hhas⟩ := intern_spec hwf p
  exact ⟨⟨rfl, hi, hhost, (hwf'.volume hhas).trans (congrArg _ hhost)⟩, hwf'⟩

/-- An interned node changes no listing. -/
theorem Inv.interned {w' : World} (h : Inv fold w) (ht : w'.tree = w.tree)
    (hi : Interned w.registry w'.registry) (hwf : w'.registry.vfs.WF fold) : Inv fold w' where
  wf := hwf
  fresh {d r} hr := by
    rw [hi.cache, volumeFor_congr hi.buildRoot] at hr
    rw [ht]
    exact h.fresh hr

/-- The listing of a node leaves the caches as they should be. -/
theorem Inv.children {n : Node} {p : Path} (h : Inv fold w) (hhost : n.host = p)
    (hvol : n.volume = w.registry.vfs.volumeFor p) {s : Registry} {r : List Node}
    (hl : Listed fold (w.tree.view env) w.registry s n r) :
    Inv fold { w with registry := s } ∧ r.map Node.host = listing fold w.tree p := by
  have hself : r.map Node.host = listing fold w.tree p := by
    rcases hl.answer with hc | ⟨-, hlists⟩
    · rw [hvol, hhost] at hc
      exact h.fresh hc
    · rw [← hhost]
      exact hosts_of_lists hlists
  refine ⟨⟨hl.wf, fun {d r'} hr => ?_⟩, hself⟩
  change s.vfs.childrenCache.get? (s.vfs.volumeFor d, d) = some r' at hr
  show r'.map Node.host = listing fold w.tree d
  rw [volumeFor_congr hl.buildRoot] at hr
  by_cases hd : (w.registry.vfs.volumeFor d, d) = (n.volume, n.host)
  · rw [hd, hl.cache_self] at hr
    have hdp : d = p := (Prod.mk.inj hd).2.trans hhost
    rw [hdp, ← Option.some.inj hr]
    exact hself
  · rw [hl.cache_other hd] at hr
    exact h.fresh hr

/-- **Fresh caches make `children` true.** -/
theorem Inv.coherent (h : Inv fold w) : Coherent fold w := by
  intro env p hallow
  refine wp_exists_ok ?_
  simp only [childrenOf, wp_bind]
  refine wp_mono (nodeAt_spec h.wf p) ?_ fun _ _ h => h
  rintro n w₁ ⟨hn, hwf⟩
  have h₁ := h.interned hn.tree hn.interned hwf
  rw [wp_onVfs]
  refine wp_mono (children_spec hwf n) (fun r s hl => ?_) ?_
  · rw [← hn.tree]
    exact (h₁.children hn.host hn.volume hl).2
  · rintro e s ⟨-, -, -, hd, e', he⟩
    rw [Tree.view_listdir_eq hd (hallow _ _)] at he
    cases he

end Coherence

/-! ## Safe operations -/

/-- The entry at `q` is new. -/
def Made (t t' : Tree) (q : Path) : Prop := t.has q = false ∧ t'.has q = true

/-- The entries the host makes for an operation on `p`, ended with `r`, are in no directory with a
cached listing that `invalidate_path(p)` leaves alone. -/
structure AddsSafely (root : Path) (cached : Path → Prop) (p : Path) (t : Tree) {ε α : Type}
    (r : EStateM.Result ε Tree α) : Prop where
  /-- A call that failed part-way. -/
  partway : okState r = none → ∀ n d, Made t (endState r) (n :: d) → ¬ cached d
  /-- The build root, or one of its ancestors, made from below. -/
  buildRoot : root <:+ p → ∀ n d, n :: d <:+ root → Made t (endState r) (n :: d) → ¬ cached d
  /-- The sidecar of the build root. -/
  rootSidecar : p = root → ∀ n d, root = n :: d → Made t (endState r) (sidecar p) → ¬ cached d
  /-- A named fork in an existing directory. -/
  namedfork : Made t (endState r) (namedfork p) → ¬ cached (dotNamedfork :: p)

/-- Moving `src` to `dst` makes no cached listing wrong that the two `invalidate_path` leave
alone. -/
structure MovesSafely (root : Path) (cached : Path → Prop) (src dst : Path) (t : Tree) :
    Prop where
  /-- A directory that is not empty, below the one that is moved. -/
  below : ∀ r n, r ≠ [] → t.has (n :: (r ++ src)) = true → ¬ cached (r ++ src) ∧ ¬ cached (r ++ dst)
  /-- The build root is moved away. -/
  rootMoved : src = root → ∀ n d, root = n :: d → ¬ d <:+ dst → ¬ cached d
  /-- The build root is made. -/
  rootMade : dst = root → t.has dst = false → ∀ n d, root = n :: d → ¬ d <:+ src → ¬ cached d

/-- No listing is `cached` that the operation makes wrong and does not drop. -/
def SafeAt (env : HostEnv) (root : Path) (cached : Path → Prop) (t : Tree) : NodeOp → Prop
  | .children _ | .childrenNamed _ _ => True
  | .writeDataFork p data => AddsSafely root cached p t (createFile env p data t)
  | .delete p =>
    okState (hostDelete env p t) ≠ none → p = root → ∀ n d, root = n :: d → ¬ cached d
  | .rename p destination =>
    okState (osRename env p destination t) ≠ none → p ≠ destination →
      MovesSafely root cached p destination t
  | .writeResourceFork p data => AddsSafely root cached p t (storeResourceFork env p data t)
  | .setFinderInfo p data =>
    data.length = 32 → AddsSafely root cached p t (storeFinderInfo env p data t)

/-- The operation is safe in `w`. -/
def Safe (env : HostEnv) (w : World) (op : NodeOp) : Prop :=
  SafeAt env w.registry.vfs.buildRoot w.Cached w.tree op

section Steps

variable {fold : Str → Str} {env : HostEnv} {w : World} {t' : Tree}

/-- Interning a node makes no operation unsafe. -/
theorem Safe.interned {op : NodeOp} {w' : World} {p : Path} {n : Node} (h : Safe env w op)
    (hn : NodeAt w w' p n) : Safe env w' op := by
  have hcached : w'.Cached = w.Cached := by
    funext d
    rw [World.Cached, World.Cached, hn.interned.cache, volumeFor_congr hn.interned.buildRoot]
  rw [Safe, hcached, hn.tree, hn.interned.buildRoot]
  exact h

/-- The caches of `w'` hold listings of `w` whose directories have the same entries. -/
theorem Inv.kept {w' : World} (h : Inv fold w) (hwf : w'.registry.vfs.WF fold)
    (hroot : w'.registry.vfs.buildRoot = w.registry.vfs.buildRoot)
    (hkept : ∀ {d r}, w'.registry.vfs.childrenCache.get? (w.registry.vfs.volumeFor d, d) = some r →
      w.registry.vfs.childrenCache.get? (w.registry.vfs.volumeFor d, d) = some r ∧
        ∀ n, w'.tree.has (n :: d) = w.tree.has (n :: d)) : Inv fold w' where
  wf := hwf
  fresh {d r} hr := by
    rw [volumeFor_congr hroot] at hr
    obtain ⟨hold, hhas⟩ := hkept hr
    rw [listing_congr hhas]
    exact h.fresh hold

/-- Where the volume changes on the way up. -/
theorem volumeFor_ne {v : VFS} {d p : Path} (hd : d <:+ p) (h : v.volumeFor d ≠ v.volumeFor p) :
    v.buildRoot <:+ p ∧ ¬ v.buildRoot <:+ d := by
  have hiff := volumeFor_eq_iff (v := v) hd
  by_cases hp : v.buildRoot <:+ p
  · refine ⟨hp, fun hb => h (hiff.mpr ?_)⟩
    rw [show v.volumeFor p = .build from if_pos hp]
    exact hb
  · refine absurd (hiff.mpr ?_) h
    rw [show v.volumeFor p = .host from if_neg hp]
    exact List.nil_suffix

/-- The paths at which an operation on `p` may make entries. -/
def opPaths (p q : Path) : Prop := q = namedfork p ∨ q <:+ sidecar p ∨ q <:+ p

/-- A new entry of a cached directory is one that `invalidate_path(p)` drops the listing of. -/
theorem AddsSafely.dropped {ε α : Type} {v : VFS} {cached : Path → Prop} {p : Path} {t : Tree}
    {r : EStateM.Result ε Tree α} (h : AddsSafely v.buildRoot cached p t r) {n : Str} {d : Path}
    (hmade : Made t (endState r) (n :: d)) (hon : opPaths p (n :: d)) (hd : cached d) :
    v.Dropped p d := by
  have hbelow : n :: d <:+ p → v.Dropped p d := by
    intro hs
    have hds : d <:+ p := (List.suffix_cons n d).trans hs
    refine ⟨hds, by_contra fun hvol => ?_⟩
    obtain ⟨hroot, hnot⟩ := volumeFor_ne hds hvol
    have hnd : n :: d <:+ v.buildRoot := by
      rcases List.suffix_or_suffix_of_suffix hs hroot with hle | hle
      · exact hle
      · rcases List.suffix_cons_iff.mp hle with heq | hle
        · exact heq ▸ List.suffix_refl _
        · exact absurd hle hnot
    exact h.buildRoot hroot n d hnd hmade hd
  rcases hon with hnf | hsc | hp
  · obtain ⟨-, rfl⟩ := List.cons.inj hnf
    exact absurd hd (h.namedfork (hnf ▸ hmade))
  · rcases List.suffix_cons_iff.mp hsc with heq | hs
    · obtain ⟨-, rfl⟩ := List.cons.inj heq
      refine ⟨List.tail_suffix p, by_contra fun hvol => ?_⟩
      obtain ⟨hroot, hnot⟩ := volumeFor_ne (List.tail_suffix p) hvol
      cases p with
      | nil => exact hnot hroot
      | cons m e =>
        have hpr := (List.suffix_cons_iff.mp hroot).resolve_right hnot
        have hside : Made t (endState r) (sidecar (m :: e)) := by
          rw [sidecar, ← heq]
          exact hmade
        exact h.rootSidecar hpr.symm m e hpr hside hd
    · exact hbelow (hs.trans (List.tail_suffix p))
  · exact hbelow hp

/-- After `invalidate_path(p)` what is cached was cached and was not dropped. -/
theorem cached_of_invalidate {v : VFS} {p d : Path} {r : List Node}
    (h : (v.invalidate p).childrenCache.get? (v.volumeFor d, d) = some r) :
    ¬ v.Dropped p d ∧ v.childrenCache.get? (v.volumeFor d, d) = some r := by
  classical
  rw [invalidate_cache] at h
  split at h
  · cases h
  · rename_i hd
    exact ⟨hd, h⟩

/-- **An operation that adds entries**, and then drops the listings on the way up from `p`. -/
theorem adds_spec {ε : Type} {on : Path → Prop} {p : Path} {x : EStateM ε Tree Unit}
    {y : EStateM Exc Tree Unit} (h : Inv fold w) (hon : ∀ q, on q → opPaths p q)
    (hx : wp x (fun _ t' => Grows on w.tree t') (fun _ t' => Grows on w.tree t') w.tree)
    (hsafe : AddsSafely w.registry.vfs.buildRoot w.Cached p w.tree (x w.tree))
    (hy : ∀ {Q : Unit → Tree → Prop} {E : Tree → Prop}, wp x Q (fun _ t' => E t') w.tree →
      wp y Q (fun _ t' => E t') w.tree) :
    wp (do onTree y; onVfs env (invalidatePath · p)) (fun _ w' => Inv fold w')
      (fun _ w' => Inv fold w') w := by
  rw [wp_bind, wp_onTree]
  refine hy (wp_mono (wp_and hx (wp_self x w.tree)) ?_ ?_)
  · rintro _ t₁ ⟨hg, hr⟩
    rw [hr] at hsafe
    rw [wp_invalidate]
    refine h.kept (invalidate_wf h.wf p) (by rw [invalidate_eq]) fun {d r} hc => ?_
    obtain ⟨hnot, hold⟩ := cached_of_invalidate hc
    refine ⟨hold, fun n => hg.has_eq fun hf ht => hnot ?_⟩
    refine hsafe.dropped ⟨hf, ht⟩ (hon _ ?_) ⟨r, hold⟩
    exact (hg.new ht).resolve_left (by rw [hf]; decide)
  · rintro _ t₁ ⟨hg, hr⟩
    rw [hr] at hsafe
    refine h.kept h.wf rfl fun {d r} hc => ⟨hc, fun n => hg.has_eq fun hf ht => ?_⟩
    exact hsafe.partway rfl n d ⟨hf, ht⟩ ⟨r, hc⟩

theorem delete_inv {n : Node} (h : Inv fold w)
    (hsafe : SafeAt env w.registry.vfs.buildRoot w.Cached w.tree (.delete n.host)) :
    wp (delete env n) (fun _ w' => Inv fold w') (fun _ w' => Inv fold w') w := by
  simp only [delete, wp_bind, wp_onTree, wp_mapError]
  refine wp_mono (wp_and (hostDelete_spec n.host) (wp_self _ w.tree)) ?_
    fun _ _ ht => ht.1 ▸ h
  rintro _ t₁ ⟨hrem, hr⟩
  rw [wp_invalidate]
  refine h.kept (invalidate_wf h.wf n.host) (by rw [invalidate_eq]) fun {d r} hc => ?_
  obtain ⟨hnot, hold⟩ := cached_of_invalidate hc
  refine ⟨hold, fun m => (hrem.has_eq _).trans ?_⟩
  have hne : m :: d ≠ n.host := by
    intro heq
    have hds : d <:+ n.host := heq ▸ List.suffix_cons m d
    by_cases hvol : w.registry.vfs.volumeFor d = w.registry.vfs.volumeFor n.host
    · exact hnot ⟨hds, hvol⟩
    · obtain ⟨hroot, hnd⟩ := volumeFor_ne hds hvol
      rw [← heq] at hroot
      have hpr := (List.suffix_cons_iff.mp hroot).resolve_right hnd
      exact hsafe (by rw [hr]; simp [okState]) (heq.symm.trans hpr.symm) m d hpr ⟨r, hold⟩
  rw [decide_eq_true hne, Bool.true_and]

/-- A directory whose listing is kept through a safe move has the entries it had. -/
theorem moved_has_eq {v : VFS} {cached : Path → Prop} {src dst d : Path} {t : Tree}
    (hmove : t.CanMove src dst) (hsafe : MovesSafely v.buildRoot cached src dst t)
    (hd : cached d) (hsrc : ¬ v.Dropped src d) (hdst : ¬ v.Dropped dst d) (n : Str) :
    (t.move src dst hmove).has (n :: d) = t.has (n :: d) := by
  -- The directory just above a dropped path is dropped with it, unless the path is the build root.
  have hroot : ∀ {p : Path}, n :: d = p → ¬ v.Dropped p d →
      v.buildRoot = n :: d ∧ v.volumeFor d = .host := by
    intro p hp hnot
    have hds : d <:+ p := hp ▸ List.suffix_cons n d
    have hvol : v.volumeFor d ≠ v.volumeFor p := fun hv => hnot ⟨hds, hv⟩
    obtain ⟨hr, hnd⟩ := volumeFor_ne hds hvol
    rw [← hp] at hr
    exact ⟨(List.suffix_cons_iff.mp hr).resolve_right hnd, if_neg hnd⟩
  rw [DirTree.has_move]
  split
  · rename_i hq
    rcases List.suffix_cons_iff.mp hq with heq | hq
    · -- `n :: d` is the destination.
      have horigin : DirTree.origin src dst (n :: d) = src := by
        rw [← heq]
        exact DirTree.origin_append src dst []
      rw [horigin, hmove.has_src]
      obtain ⟨hbr, hvol⟩ := hroot heq.symm hdst
      cases hhas : t.has (n :: d) with
      | true => rfl
      | false =>
        refine absurd hd (hsafe.rootMade (heq.trans hbr.symm) (heq ▸ hhas) n d hbr fun hs => ?_)
        refine hsrc ⟨hs, hvol.trans (if_neg fun hr => ?_).symm⟩
        rw [hbr] at hr
        rw [DirTree.has_of_suffix hr hmove.has_src] at hhas
        cases hhas
    · -- `d` is at or below the destination.
      obtain ⟨r, rfl⟩ := hq
      have horigin : DirTree.origin src dst (n :: (r ++ dst)) = n :: (r ++ src) :=
        DirTree.origin_append src dst (n :: r)
      have hr : r ≠ [] := by
        rintro rfl
        exact hdst ⟨List.suffix_refl _, rfl⟩
      have hfree : t.has (n :: (r ++ dst)) = false :=
        DirTree.has_append_of_names_nil hmove.empty (List.cons_ne_nil n r)
      rw [horigin, hfree]
      exact Bool.eq_false_iff.mpr fun hn => (hsafe.below r n hr hn).2 hd
  · by_cases hq : src <:+ n :: d
    · rw [decide_eq_true hq, Bool.not_true, Bool.false_and]
      symm
      rcases List.suffix_cons_iff.mp hq with heq | hq
      · -- `n :: d` is the source.
        obtain ⟨hbr, hvol⟩ := hroot heq.symm hsrc
        refine absurd hd (hsafe.rootMoved (heq.trans hbr.symm) n d hbr fun hs => ?_)
        refine hdst ⟨hs, hvol.trans (if_neg fun hr => hmove.not_below ?_).symm⟩
        rw [heq, ← hbr]
        exact hr
      · -- `d` is at or below the source.
        obtain ⟨r, rfl⟩ := hq
        have hr : r ≠ [] := by
          rintro rfl
          exact hsrc ⟨List.suffix_refl _, rfl⟩
        exact Bool.eq_false_iff.mpr fun hn => (hsafe.below r n hr hn).1 hd
    · rw [decide_eq_false hq, Bool.not_false, Bool.true_and]

theorem node_inv {p : Path} (h : Inv fold w) :
    wp (onVfs env (node · p)) (fun n w' => Inv fold w' ∧ NodeAt w w' p n) (fun _ _ => False) w :=
  wp_mono (nodeAt_spec h.wf p)
    (fun _ _ hn => ⟨h.interned hn.1.tree hn.1.interned hn.2, hn.1⟩) fun _ _ h => h

theorem rename_inv {n : Node} {dst : Path} (h : Inv fold w)
    (hsafe : SafeAt env w.registry.vfs.buildRoot w.Cached w.tree (.rename n.host dst)) :
    wp (rename env n dst) (fun _ w' => Inv fold w') (fun _ w' => Inv fold w') w := by
  simp only [rename, wp_bind, wp_onTree, wp_mapError]
  refine wp_mono (wp_and (osRename_spec n.host dst) (wp_self _ w.tree))
    ?_ fun _ _ ht => ht.1 ▸ h
  rintro _ t₁ ⟨hren, hr⟩
  have hok : okState (osRename env n.host dst w.tree) ≠ none := by
    rw [hr]
    simp [okState]
  have hhas : ∀ d, w.Cached d → ¬ w.registry.vfs.Dropped n.host d →
      ¬ w.registry.vfs.Dropped dst d → ∀ m, t₁.has (m :: d) = w.tree.has (m :: d) := by
    intro d hd hsrc hdst m
    cases hren with
    | same _ ht => rw [ht]
    | moved hmove ht =>
      rw [ht]
      refine moved_has_eq hmove (hsafe hok fun heq => hmove.not_below ?_) hd hsrc hdst m
      exact heq ▸ List.suffix_refl _
  have hbr : (w.registry.vfs.invalidate n.host).buildRoot = w.registry.vfs.buildRoot := by
    rw [invalidate_eq]
  simp only [wp_invalidate]
  have hinv : Inv fold ⟨t₁, { w.registry with
      vfs := (w.registry.vfs.invalidate n.host).invalidate dst }⟩ := by
    refine h.kept (invalidate_wf (invalidate_wf h.wf n.host) dst)
      (by rw [invalidate_eq (w.registry.vfs.invalidate n.host), hbr]) fun {d r} hc => ?_
    change ((w.registry.vfs.invalidate n.host).invalidate dst).childrenCache.get? _ = _ at hc
    rw [← volumeFor_congr hbr] at hc
    obtain ⟨hdst, hc⟩ := cached_of_invalidate hc
    rw [volumeFor_congr hbr] at hc
    obtain ⟨hsrc, hold⟩ := cached_of_invalidate hc
    rw [VFS.Dropped, volumeFor_congr hbr] at hdst
    exact ⟨hold, hhas d ⟨r, hold⟩ hsrc hdst⟩
  exact wp_mono (node_inv hinv) (fun _ _ h => h.1) fun _ _ h => h.elim

/-- The operations on a node keep the caches fresh. -/
theorem on_inv {n : Node} {op : NodeOp} (h : Inv fold w) (hhost : n.host = op.path)
    (hvol : n.volume = w.registry.vfs.volumeFor op.path) (hsafe : Safe env w op) :
    wp (op.on fold env n) (fun _ w' => Inv fold w') (fun _ w' => Inv fold w') w := by
  cases op with
  | children p =>
    rw [NodeOp.on, wp_discard, wp_onVfs]
    refine wp_mono (children_spec h.wf n) (fun r s hl => (h.children hhost hvol hl).1) ?_
    rintro _ s ⟨rfl, -⟩
    exact h
  | childrenNamed p name =>
    rw [NodeOp.on, wp_discard, wp_onVfs]
    refine wp_mono (childrenNamed_spec h.wf n name) ?_ ?_
    · rintro _ s ⟨listed, hl, -⟩
      exact (h.children hhost hvol hl).1
    · rintro _ s ⟨rfl, -⟩
      exact h
  | writeDataFork p data =>
    change n.host = p at hhost
    subst hhost
    exact adds_spec h (fun q hq => Or.inr (Or.inr hq)) (createFile_spec n.host data) hsafe
      fun hx => wp_mapError _ _ |>.mpr hx
  | delete p =>
    change n.host = p at hhost
    subst hhost
    exact delete_inv h hsafe
  | rename p dst =>
    change n.host = p at hhost
    subst hhost
    rw [NodeOp.on, wp_discard]
    exact rename_inv h hsafe
  | writeResourceFork p data =>
    change n.host = p at hhost
    subst hhost
    exact adds_spec h (fun q hq => hq.imp_right Or.inl) (storeResourceFork_spec n.host data) hsafe
      fun hx => hx
  | setFinderInfo p data =>
    change n.host = p at hhost
    subst hhost
    rw [NodeOp.on, setFinderInfo]
    split
    · exact h
    · rename_i hlen
      exact adds_spec h (fun q hq => Or.inr (Or.inl hq)) (storeFinderInfo_spec n.host data)
        (hsafe (not_not.mp hlen)) fun hx => hx

/-- **A safe operation keeps the caches fresh**, whether it returns or raises. -/
theorem step_inv {op : NodeOp} (h : Inv fold w) (hsafe : Safe env w op) :
    Inv fold (w.step fold env op) := by
  refine wp_endState ?_
  rw [NodeOp.call, wp_bind]
  refine wp_mono (node_inv h) ?_ fun _ _ h => h.elim
  rintro n w₁ ⟨h₁, hn⟩
  exact on_inv h₁ hn.host hn.volume (hsafe.interned hn)

theorem start_inv (tree : Tree) (nodeById : Dict Nat Node) (ident : Nat) (buildRoot : Path) :
    Inv fold (.start tree nodeById ident buildRoot) := by
  obtain ⟨hi, hwf⟩ := init_spec fold nodeById ident buildRoot
  refine ⟨hwf, fun {d r} hr => ?_⟩
  change (Registry.init nodeById ident buildRoot).vfs.childrenCache.get? _ = some r at hr
  rw [hi.cache] at hr
  cases hr

end Steps

/-! ## Runs -/

/-- The worlds a run of safe operations reaches. -/
inductive SafeRun (fold : Str → Str) (start : World) : World → Prop
  | start : SafeRun fold start start
  | step {w : World} {env : HostEnv} {op : NodeOp} : SafeRun fold start w → Safe env w op →
    SafeRun fold start (w.step fold env op)

theorem SafeRun.inv {fold : Str → Str} {start w : World} (h : SafeRun fold start w)
    (hstart : Inv fold start) : Inv fold w := by
  induction h with
  | start => exact hstart
  | step _ hsafe ih => exact step_inv ih hsafe

/-- **The caches are coherent throughout every run of safe operations**, from any tree and a new
VFS on it, whatever the host refuses. -/
theorem run_coherent {fold : Str → Str} {tree : Tree} {nodeById : Dict Nat Node} {ident : Nat}
    {buildRoot : Path} {w : World}
    (h : SafeRun fold (.start tree nodeById ident buildRoot) w) : Coherent fold w :=
  (h.inv (start_inv tree nodeById ident buildRoot)).coherent

/-- The worlds a run reaches in which every operation returns or raises `HostError`. -/
inductive Run (fold : Str → Str) (start : World) : World → Prop
  | start : Run fold start start
  | step {w : World} {env : HostEnv} {op : NodeOp} : Run fold start w →
    wp (op.call fold env) (fun _ _ => True) (fun e _ => e.isHostError = true) w →
    Run fold start (w.step fold env op)

/-- A new VFS on the small tree, with `/p` as the build root. -/
def smallWorld : World := .start smallTree .empty 0 [['p']]

/-- The listing of `/p/d/s` is cached. -/
def listedWorld : World := smallWorld.step id calm (.children [['s'], ['d'], ['p']])

/-- A file written into new directories of the build root. -/
theorem listedWorld_safe :
    Safe calm listedWorld (.writeDataFork [['g'], ['t'], ['d'], ['p']] []) where
  partway h := absurd h (by decide)
  buildRoot _ n d hs hmade := by
    have hroot : listedWorld.tree.has [['p']] = true := by decide
    exact absurd (DirTree.has_of_suffix hs hroot) (by rw [hmade.1]; decide)
  rootSidecar h := absurd h (by decide)
  namedfork h := absurd h.2 (by decide)

theorem run_coherent_small : Coherent id
    (listedWorld.step id calm (.writeDataFork [['g'], ['t'], ['d'], ['p']] [])) :=
  run_coherent (.step (.step .start trivial) listedWorld_safe)

/-- `children`, and a rename of the directory above. -/
def staleWorld : World := listedWorld.step id calm (.rename [['d'], ['p']] [['e'], ['p']])

theorem staleWorld_children :
    (okValue (childrenOf id calm [['s'], ['d'], ['p']] staleWorld)).map (List.map Node.host) =
      some [[['f'], ['s'], ['d'], ['p']]] := by
  decide

/-- **After the rename the old place still lists the file.** -/
theorem rename_stale : ¬ ∀ (fold : Str → Str) (tree : Tree) (nodeById : Dict Nat Node)
    (ident : Nat) (buildRoot : Path) (w : World),
    Run fold (.start tree nodeById ident buildRoot) w → Coherent fold w := by
  intro h
  have hrun : Run id smallWorld staleWorld := .step (.step .start trivial) trivial
  obtain ⟨r, w', hr, hlist⟩ := h id smallTree .empty 0 [['p']] staleWorld hrun calm
    [['s'], ['d'], ['p']] fun _ _ => rfl
  have hgone : listing id staleWorld.tree [['s'], ['d'], ['p']] = [] := by decide
  have hstale := staleWorld_children
  rw [hr] at hstale
  have hempty : r.map Node.host = [] := hlist.trans hgone
  exact absurd (hempty.symm.trans (Option.some.inj hstale)) (by decide)

end Cwhost.Vfs
