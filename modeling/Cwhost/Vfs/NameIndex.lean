import Cwhost.Lib.Along
import Cwhost.Vfs.Coherence
import Cwhost.Vfs.Forks

/-!
# The index by name (`vfs.py`, `Node.children_named`)

`children` stores a listing in one cache and its index by folded name in another, at either of its
two exits that have a listing; `invalidate_path` drops both, directory by directory; a listing that
fails stores nothing. So `children_named`, which reads the second cache, selects from what
`children` returns, whatever the host has become since the listing was made.

* `VfsCall`, `Registry.after`: what a VFS is asked to do, the host being another one each time it
  is looked at.
* `IndexAgrees`, `after_indexAgrees`: the caches agree after any calls.
* `step_hosted`, `Interleaved.indexAgrees`: the methods on the host's tree are such calls.

The entry of a listing is filed under the name of its canonical node, so a symbolic link is filed
under the name of what it leads to.

Out of scope: paths that cannot be resolved or stat'ed. `Path.resolve` raises a `RuntimeError` on a
loop of symbolic links, and `Path.is_dir` a `PermissionError` below a directory that can be listed
and not searched; both escape. A `HostView` answers for every path.
-/

namespace Cwhost.Vfs

open Lib

/-! ## Calls, whatever the host does -/

/-- What a mutating method does on the VFS; `work` is how its calls of the host end. -/
def mutate (work : Except Exc Unit) (view : HostView) (n : Node) : VfsM Unit := do
  MonadExcept.ofExcept work
  invalidatePath view n.host

/-- `Node.rename`, with the host as it is when the destination is resolved, at each of the two
`invalidate_path`, and when the new node is made. -/
def hostedRename (work : Except Exc Unit) (asked old new made : HostView) (n : Node)
    (destination : Path) : VfsM Node := do
  let destinationHost := asked.resolve destination
  MonadExcept.ofExcept work
  invalidatePath old n.host
  invalidatePath new destinationHost
  node made destinationHost

/-- A call on a VFS and its nodes. A path that does not resolve breaks a call off: a listing has
then made the nodes before it, which are calls of `node`, and `rename` may have dropped the listings
of the old path alone, which is a `mutate`. -/
inductive VfsCall
  | node (view : HostView) (path : Path)
  | children (view : HostView) (n : Node)
  | childrenNamed (view : HostView) (n : Node) (name : Str)
  /-- `write_data_fork`, `delete`, `write_resource_fork`, `set_finder_info`, `set_type_creator`. -/
  | mutate (work : Except Exc Unit) (view : HostView) (n : Node)
  | rename (work : Except Exc Unit) (asked old new made : HostView) (n : Node) (destination : Path)

/-- The call. -/
def VfsCall.run (fold : Str → Str) : VfsCall → VfsM Unit
  | .node view path => discard (Vfs.node view path)
  | .children view n => discard (Vfs.children fold view n)
  | .childrenNamed view n name => discard (Vfs.childrenNamed fold view n name)
  | .mutate work view n => Vfs.mutate work view n
  | .rename work asked old new made n destination =>
    discard (hostedRename work asked old new made n destination)

/-- The registry after a sequence of calls, each returning or raising. -/
def Registry.after (fold : Str → Str) (calls : List VfsCall) (s : Registry) : Registry :=
  calls.foldl (fun s call => endState (call.run fold s)) s

/-! ## Any calls -/

/-- **The two caches agree**: they have the same keys, and where `children_named` returns, it
returns the nodes of that name out of what `children` returns, in the order of the listing. -/
structure IndexAgrees (fold : Str → Str) (s : Registry) : Prop where
  keys : ∀ key, key ∈ s.vfs.childrenByNameCache.keys ↔ key ∈ s.vfs.childrenCache.keys
  named : ∀ {view : HostView} {n : Node} {name : Str} {found : List Node} {s' : Registry},
    childrenNamed fold view n name s = .ok found s' →
      ∃ listed, children fold view n s = .ok listed s' ∧
        found = listed.filter fun m => decide (fold (s.vfs.nodeName m) = fold name)

section Calls

variable {fold : Str → Str} {s : Registry}

theorem wf_indexAgrees (hwf : s.vfs.WF fold) : IndexAgrees fold s where
  keys key := by
    rw [← not_iff_not, ← Dict.get?_eq_none_iff, ← Dict.get?_eq_none_iff, hwf.index,
      Option.map_eq_none_iff]
  named {view n name found s'} h := by
    rw [childrenNamed_eq hwf] at h
    cases hc : children fold view n s with
    | error e s₁ =>
      rw [map_of_error _ hc] at h
      cases h
    | ok listed s₁ =>
      rw [map_of_ok _ hc] at h
      cases h
      exact ⟨listed, rfl, rfl⟩

theorem mutate_wf (hwf : s.vfs.WF fold) (work : Except Exc Unit) (view : HostView) (n : Node) :
    wp (mutate work view n) (fun _ s' => s'.vfs.WF fold) (fun _ s' => s' = s) s := by
  rw [mutate, wp_bind]
  refine wp_ofExcept (fun _ _ => ?_) fun _ _ => rfl
  exact invalidate_wf hwf (view.resolve n.host)

theorem hostedRename_wf (hwf : s.vfs.WF fold) (work : Except Exc Unit)
    (asked old new made : HostView) (n : Node) (destination : Path) :
    wp (hostedRename work asked old new made n destination) (fun _ s' => s'.vfs.WF fold)
      (fun _ s' => s' = s) s := by
  simp only [hostedRename, wp_bind]
  refine wp_ofExcept (fun _ _ => ?_) fun _ _ => rfl
  have hold := invalidate_wf hwf (old.resolve n.host)
  have hnew := invalidate_wf hold (new.resolve (asked.resolve destination))
  exact (intern_spec (s := ⟨s.nodeById, _⟩) hnew (made.resolve (asked.resolve destination))).2.1

/-- **One call keeps the caches in step**, however it ends. -/
theorem run_wf (hwf : s.vfs.WF fold) (call : VfsCall) :
    (endState (call.run fold s)).vfs.WF fold := by
  refine wp_endState (I := fun s' : Registry => s'.vfs.WF fold) ?_
  cases call with
  | node view path =>
    exact wp_discard.mpr (wp_mono (node_spec hwf path) (fun _ _ h => h.1.2) fun _ _ h => h.elim)
  | children view n =>
    refine wp_discard.mpr (wp_mono (children_spec hwf n) (fun _ _ h => h.wf) ?_)
    rintro _ _ ⟨rfl, -⟩
    exact hwf
  | childrenNamed view n name =>
    refine wp_discard.mpr (wp_mono (childrenNamed_spec hwf n name) ?_ ?_)
    · rintro _ _ ⟨listed, h, -⟩
      exact h.wf
    · rintro _ _ ⟨rfl, -⟩
      exact hwf
  | mutate work view n =>
    refine wp_mono (mutate_wf hwf work view n) (fun _ _ h => h) ?_
    rintro _ _ rfl
    exact hwf
  | rename work asked old new made n destination =>
    refine wp_discard.mpr (wp_mono (hostedRename_wf hwf work asked old new made n destination)
      (fun _ _ h => h) ?_)
    rintro _ _ rfl
    exact hwf

theorem after_wf (hwf : s.vfs.WF fold) (calls : List VfsCall) :
    (s.after fold calls).vfs.WF fold := by
  induction calls generalizing s with
  | nil => exact hwf
  | cons call calls ih => exact ih (run_wf hwf call)

end Calls

/-- **The index by name agrees with the listing** in every state of a VFS that any calls reach,
whatever the host is each time they look at it. -/
theorem after_indexAgrees (fold : Str → Str) (nodeById : Dict Nat Node) (ident : Nat)
    (buildRoot : Path) (calls : List VfsCall) :
    IndexAgrees fold ((Registry.init nodeById ident buildRoot).after fold calls) :=
  wf_indexAgrees (after_wf (init_spec fold nodeById ident buildRoot).2 calls)

/-! ## The methods on the host's tree -/

/-- The registry of `w'` is that of `w` after some calls. -/
def Moves (fold : Str → Str) (w w' : World) : Prop :=
  ∃ calls, w'.registry = w.registry.after fold calls

section Methods

variable {fold : Str → Str} {env : HostEnv} {n : Node}

theorem moves_steps (fold : Str → Str) : Steps (Moves fold) where
  refl _ := ⟨[], rfl⟩
  trans := by
    rintro w w₁ w₂ ⟨calls, h⟩ ⟨calls', h'⟩
    refine ⟨calls ++ calls', ?_⟩
    rw [h', h]
    exact (List.foldl_append ..).symm

/-- Work of the host leaves the registry alone. -/
theorem onTree_moves {α : Type} (x : EStateM Exc Tree α) : Along (Moves fold) (onTree x) :=
  .zoom fun _ _ => ⟨[], rfl⟩

theorem registry_onVfs {α : Type} (x : HostView → VfsM α) (w : World) :
    (endState (onVfs env x w)).registry = endState (x (w.tree.view env) w.registry) := by
  refine wp_endState (I := fun w' : World => w'.registry = _) (wp_onVfs.mpr ?_)
  unfold wp
  cases x (w.tree.view env) w.registry <;> rfl

/-- Work of the VFS that is a call. -/
theorem onVfs_moves {α : Type} {x : HostView → VfsM α} (call : HostView → VfsCall)
    (h : ∀ view s, endState ((call view).run fold s) = endState (x view s)) :
    Along (Moves fold) (onVfs env x) := fun w =>
  ⟨[call (w.tree.view env)], (registry_onVfs x w).trans (h _ _).symm⟩

theorem node_moves (path : Path) : Along (Moves fold) (onVfs env (node · path)) :=
  onVfs_moves (VfsCall.node · path) fun _ _ => endState_discard _ _

/-- A method that has the host change something and then drops the listings of its node. -/
theorem mutation_moves (x : EStateM Exc Tree Unit) : Along (Moves fold) (do
    onTree x
    onVfs env (invalidatePath · n.host)) :=
  .bind (moves_steps fold) (onTree_moves x) fun _ =>
    onVfs_moves (VfsCall.mutate (.ok ()) · n) fun _ _ => rfl

theorem rename_moves (destination : Path) : Along (Moves fold) (rename env n destination) := by
  refine .bind (moves_steps fold) (onTree_moves _) fun _ w => ?_
  exact ⟨[.rename (.ok ()) (w.tree.view env) (w.tree.view env) (w.tree.view env)
    (w.tree.view env) n destination], rfl⟩

theorem setFinderInfo_moves (data : List UInt8) :
    Along (Moves fold) (setFinderInfo env n data) := by
  unfold setFinderInfo
  split
  · exact .bind (moves_steps fold) (.throw (moves_steps fold) _) fun _ => mutation_moves _
  · exact mutation_moves _

theorem setTypeCreator_moves (fileType creator : Signature) :
    Along (Moves fold) (setTypeCreator env n fileType creator) := by
  have hR := moves_steps fold
  refine .bind hR (.ofExcept hR _) fun _ => .bind hR (.ofExcept hR _) fun _ => ?_
  exact .ite (.throw hR _) (.bind hR (onTree_moves _) fun _ => setFinderInfo_moves _)

/-- **An operation on a node is a few calls**, with the tree for the host. -/
theorem step_hosted (w : World) (op : NodeOp) : Moves fold w (w.step fold env op) := by
  refine Along.bind (moves_steps fold) (node_moves op.path) (fun n => ?_) w
  cases op with
  | children p => exact .discard (onVfs_moves (.children · n) fun _ _ => endState_discard _ _)
  | childrenNamed p name =>
    exact .discard (onVfs_moves (.childrenNamed · n name) fun _ _ => endState_discard _ _)
  | writeDataFork p data => exact mutation_moves _
  | delete p => exact mutation_moves _
  | rename p destination => exact .discard (rename_moves destination)
  | writeResourceFork p data => exact mutation_moves _
  | setFinderInfo p data => exact setFinderInfo_moves data

theorem fork_hosted (call : ForkCall) : Along (Moves fold) (call.run env n) := by
  cases call with
  | writeResourceFork data => exact mutation_moves _
  | setFinderInfo data => exact setFinderInfo_moves data
  | setTypeCreator fileType creator => exact setTypeCreator_moves fileType creator

end Methods

/-- The worlds a run reaches while other programs change the tree. -/
inductive Interleaved (fold : Str → Str) (start : World) : World → Prop
  | start : Interleaved fold start start
  | host {w : World} (tree : Tree) : Interleaved fold start w →
    Interleaved fold start { w with tree := tree }
  | step {w : World} (env : HostEnv) (op : NodeOp) : Interleaved fold start w →
    Interleaved fold start (w.step fold env op)
  | fork {w : World} (env : HostEnv) (n : Node) (call : ForkCall) : Interleaved fold start w →
    Interleaved fold start (endState (call.run env n w))

theorem Interleaved.moves {fold : Str → Str} {start w : World} (h : Interleaved fold start w) :
    Moves fold start w := by
  have hR := moves_steps fold
  induction h with
  | start => exact hR.refl start
  | host tree _ ih => exact hR.trans ih ⟨[], rfl⟩
  | step env op _ ih => exact hR.trans ih (step_hosted _ op)
  | fork env n call _ ih => exact hR.trans ih (fork_hosted call _)

/-- The index agrees throughout every such run. -/
theorem Interleaved.indexAgrees {fold : Str → Str} {tree : Tree} {nodeById : Dict Nat Node}
    {ident : Nat} {buildRoot : Path} {w : World}
    (h : Interleaved fold (.start tree nodeById ident buildRoot) w) :
    IndexAgrees fold w.registry := by
  obtain ⟨calls, hcalls⟩ := h.moves
  rw [hcalls]
  exact wf_indexAgrees (after_wf (init_spec fold nodeById ident buildRoot).2 calls)

end Cwhost.Vfs
