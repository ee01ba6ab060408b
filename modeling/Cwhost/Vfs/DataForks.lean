import Cwhost.Carbon.CatalogInfo
import Cwhost.Lib.Along

/-!
# Data forks (`vfs.py`, `Node.write_data_fork`)

A data fork is written in place: the file keeps its native attributes, and no other entry changes.
The calls for the other forks write attributes and the sidecar, which is another entry. So none of
the three forks of a file shows a write to another one.

* `Rewrote`: what a write to a file changes. `writeBytes_rewrote`, `AppleDouble.write_rewrote`.
* `forkCall_content`, `writeDataFork_tiers`: the calls for the other forks keep the data fork, and
  the writes of the data fork keep the others.
* `file_lastWritten`: **in a run of calls on a file, of any kind and in any order, each fork reads
  as it was last written.**
-/

namespace Cwhost.Vfs

open Lib

/-- The content of the file at `p`. -/
def Tree.content (t : Tree) (p : Path) : Option (List UInt8) := (t.look p).bind Entry.content

/-! ## What a write changes -/

/-- At most the content of the file at `p` has changed, or there is a new file. -/
structure Rewrote (p : Path) (t t' : Tree) : Prop where
  others : ∀ {q}, q ≠ p → t'.look q = t.look q
  attrs : t.has p = true → (t'.look p).map Entry.attrs = (t.look p).map Entry.attrs
  isDir : t.has p = true → t'.isDir p = t.isDir p

theorem Rewrote.has {p : Path} {t t' : Tree} (h : Rewrote p t t') (hp : t.has p = true) :
    t'.has p = true := by
  have hsome := congrArg Option.isSome (h.attrs hp)
  rw [Option.isSome_map, Option.isSome_map] at hsome
  exact hsome.trans hp

theorem rewrote_steps (p : Path) : Steps (Rewrote p) where
  refl _ := ⟨fun _ => rfl, fun _ => rfl, fun _ => rfl⟩
  trans h h' :=
    ⟨fun hq => (h'.others hq).trans (h.others hq),
      fun hp => (h'.attrs (h.has hp)).trans (h.attrs hp),
      fun hp => (h'.isDir (h.has hp)).trans (h.isDir hp)⟩

section Writes

variable {env : HostEnv} {p : Path}

/-- Writing a file with the attributes of the entry that is there. -/
theorem putEntry_rewrote {t : Tree} {attrs : Dict XattrName (List UInt8)} {data : List UInt8}
    (hattrs : t.has p = true → some attrs = (t.look p).map Entry.attrs) :
    wp (putEntry p ⟨attrs, some data⟩) (fun _ t' => Rewrote p t t')
      (fun _ t' => Rewrote p t t') t := by
  simp only [putEntry, wp_bind, wp_get]
  split
  · rename_i h
    have hself : (t.put p ⟨attrs, some data⟩ h).look p = some ⟨attrs, some data⟩ := by
      rw [DirTree.look_put, if_pos rfl]
    refine ⟨fun hq => ?_, fun hp => ?_, fun hp => ?_⟩
    · rw [DirTree.look_put, if_neg hq]
    · rw [hself, Option.map_some, hattrs hp]
    · -- A file is not put where a directory is.
      have hfile : t.isDir p = false := Bool.eq_false_iff.mpr fun hd => by cases h.kind hd
      rw [DirTree.isDir, hself, hfile]
      rfl
  · split <;> exact (rewrote_steps p).refl t

theorem refuse_rewrote (call : HostCall) : Along (Rewrote p) (refuse env call) :=
  .of_wp fun t => refuse_spec call ((rewrote_steps p).refl t) fun _ => (rewrote_steps p).refl t

theorem openWrite_rewrote : Along (Rewrote p) (openWrite env p) := by
  refine .bind (rewrote_steps p) (refuse_rewrote _) fun _ => .of_wp fun t => ?_
  rw [wp_bind, wp_get]
  cases hlook : t.look p with
  | some e => exact putEntry_rewrote fun _ => by rw [hlook, Option.map_some]
  | none =>
    refine putEntry_rewrote fun hp => ?_
    rw [DirTree.has, hlook] at hp
    cases hp

theorem storeContent_rewrote (data : List UInt8) : Along (Rewrote p) (storeContent p data) := by
  refine .of_wp fun t => ?_
  rw [storeContent, wp_bind, wp_get]
  cases hlook : t.look p with
  | some e => exact putEntry_rewrote fun _ => by rw [hlook, Option.map_some]
  | none => exact (rewrote_steps p).refl t

theorem writeOpen_rewrote (data : List UInt8) : Along (Rewrote p) (writeOpen env p data) := by
  refine .bind (rewrote_steps p) (.get (rewrote_steps p)) fun t => ?_
  cases env.deny t (.write p data) with
  | none => exact storeContent_rewrote data
  | some e =>
    exact .bind (rewrote_steps p) (storeContent_rewrote _) fun _ => .throw (rewrote_steps p) e

/-- **Writing a file** keeps its attributes and every other entry, however it ends. -/
theorem writeBytes_rewrote (data : List UInt8) : Along (Rewrote p) (writeBytes env p data) :=
  .bind (rewrote_steps p) openWrite_rewrote fun _ => writeOpen_rewrote data

/-- Writing a sidecar into a directory that is there. -/
theorem AppleDouble.write_rewrote {t : Tree} (ad : AppleDouble) (hdir : t.has p.tail = true) :
    wp (AppleDouble.write env ad p) (fun _ t' => Rewrote p t t') (fun _ t' => Rewrote p t t')
      t := by
  simp only [AppleDouble.write, wp_bind, wp_mapError]
  refine wp_mono (mkdirs_present hdir) (fun _ t₁ h₁ => ?_) fun _ _ h => ?_
  · subst h₁
    refine wp_ofExcept (fun output _ => ?_) fun _ _ => (rewrote_steps p).refl _
    exact (writeBytes_rewrote output).wp _
  · subst h
    exact (rewrote_steps p).refl _

end Writes

/-! ## The forks of a file -/

section Forks

variable {env : HostEnv} {t t' : Tree} {host : Path}

/-- The data fork of a file is the same, and it is still one. -/
structure SameData (host : Path) (t t' : Tree) : Prop where
  file : IsFile t' host
  content : t'.content host = t.content host

theorem IsFile.sameData (h : IsFile t host) : SameData host t t := ⟨h, rfl⟩

/-- A write to another entry. -/
theorem Rewrote.sameData {p : Path} (h : Rewrote p t t') (hfile : IsFile t host) (hp : host ≠ p) :
    SameData host t t' where
  file := isFile_congr hfile (h.others hp)
  content := by
    rw [Tree.content, h.others hp]
    rfl

theorem writeSidecarEntry_sameData (h : IsFile t host) (entryId : Nat) (data : List UInt8) :
    wp (writeSidecarEntry env host entryId data) (fun _ t' => SameData host t t')
      (fun _ t' => SameData host t t') t := by
  have hwrite : ∀ ad, wp (AppleDouble.write env ad (sidecar host))
      (fun _ t' => SameData host t t') (fun _ t' => SameData host t t') t := by
    intro ad
    refine wp_mono (AppleDouble.write_rewrote ad h.has_parent) (fun _ t' h' => ?_)
      fun _ t' h' => ?_
    · exact h'.sameData h (host_ne_sidecar h)
    · exact h'.sameData h (host_ne_sidecar h)
  simp only [writeSidecarEntry, wp_bind, wp_get]
  split
  · rw [wp_bind]
    refine wp_mono (AppleDouble.read_spec _) (fun ad t₁ h₁ => ?_) fun _ t₁ h₁ => ?_
    · subst h₁
      exact hwrite _
    · subst h₁
      exact h.sameData
  · exact hwrite _

/-- A native attribute is no data. -/
theorem osSetxattr_sameData (h : IsFile t host) (name : XattrName) (value : List UInt8) :
    wp (osSetxattr env host name value)
      (fun native t' => SameData host t t' ∧ (native = false → t' = t)) (fun _ _ => False) t := by
  simp only [osSetxattr, wp_bind, wp_get]
  split
  · refine ⟨⟨(wrote_native h name value).file, ?_⟩, fun hf => by cases hf⟩
    obtain ⟨e, he⟩ := DirTree.has_iff.mp h.has
    rw [Tree.content, Tree.content, DirTree.look_setAttrs, if_pos rfl, he]
    rfl
  · exact ⟨h.sameData, fun _ => rfl⟩

theorem storeFinderInfo_sameData (h : IsFile t host) (data : List UInt8) :
    wp (storeFinderInfo env host data) (fun _ t' => SameData host t t')
      (fun _ t' => SameData host t t') t := by
  simp only [storeFinderInfo, wp_bind, wp_mapError]
  refine wp_mono (osSetxattr_sameData h .finderInfo data) (fun native t₁ h₁ => ?_)
    fun _ _ h => h.elim
  cases native with
  | true => exact h₁.1
  | false =>
    rw [h₁.2 rfl]
    exact writeSidecarEntry_sameData h 9 data

theorem storeResourceFork_sameData (h : IsFile t host) (data : List UInt8) :
    wp (storeResourceFork env host data) (fun _ t' => SameData host t t')
      (fun _ t' => SameData host t t') t := by
  simp only [storeResourceFork, wp_bind, wp_mapError]
  refine wp_mono (osSetxattr_sameData h .resourceFork data) (fun native t₁ h₁ => ?_)
    fun _ _ h => h.elim
  cases native with
  | true => exact h₁.1
  | false =>
    rw [h₁.2 rfl]
    simp only [Bool.false_eq_true, if_false, wp_bind, wp_mapError]
    refine wp_mono (writeNamedfork_file h data) (fun written t₂ h₂ => ?_) fun _ _ h => h.elim
    obtain ⟨rfl, rfl⟩ := h₂
    exact writeSidecarEntry_sameData h 2 data

end Forks

/-! ## Calls -/

section Calls

variable {env : HostEnv} {n : Node} {w : World}

theorem setFinderInfo_sameData (h : IsFile w.tree n.host) (data : List UInt8) :
    wp (setFinderInfo env n data) (fun _ w' => SameData n.host w.tree w'.tree)
      (fun _ w' => SameData n.host w.tree w'.tree) w := by
  rw [setFinderInfo]
  split
  · exact h.sameData
  · simp only [onTree, onVfs, invalidatePath, wp_bind, wp_zoom, wp_get, wp_modify]
    exact storeFinderInfo_sameData h data

/-- **The calls for the other forks** keep the data fork, however they end. -/
theorem forkCall_sameData (h : IsFile w.tree n.host) (call : ForkCall) :
    wp (call.run env n) (fun _ w' => SameData n.host w.tree w'.tree)
      (fun _ w' => SameData n.host w.tree w'.tree) w := by
  cases call with
  | writeResourceFork data =>
    simp only [ForkCall.run, writeResourceFork, onTree, onVfs, invalidatePath, wp_bind, wp_zoom,
      wp_get, wp_modify]
    exact storeResourceFork_sameData h data
  | setFinderInfo data => exact setFinderInfo_sameData h data
  | setTypeCreator fileType creator =>
    simp only [ForkCall.run, setTypeCreator]
    rw [wp_bind]
    refine wp_ofExcept (fun rawType _ => ?_) fun _ _ => h.sameData
    rw [wp_bind]
    refine wp_ofExcept (fun rawCreator _ => ?_) fun _ _ => h.sameData
    split
    · exact h.sameData
    · rw [wp_bind]
      refine wp_mono finderInfo_spec (fun info w' hinfo => ?_) fun _ w' hinfo => ?_
      · rw [hinfo.1]
        exact setFinderInfo_sameData h _
      · rw [hinfo.1]
        exact h.sameData

/-- The other forks of a file are the same, and it is still one. -/
structure SameForks (host : Path) (t t' : Tree) : Prop where
  file : IsFile t' host
  tiers : tiers t' host = Vfs.tiers t host

theorem Rewrote.sameForks {t t' : Tree} {host : Path} (h : Rewrote host t t')
    (hfile : IsFile t host) : SameForks host t t' where
  file := ⟨h.has hfile.has, (h.isDir hfile.has).trans hfile.not_dir⟩
  tiers := by
    have hside := sidecarEntries_congr (h.others (host_ne_sidecar hfile).symm)
    have hattr : ∀ name, t'.xattr host name = t.xattr host name := by
      intro name
      have hmap := congrArg (Option.bind · fun attrs => attrs.get? name) (h.attrs hfile.has)
      simpa only [Option.bind_map, Function.comp_def, Tree.xattr] using hmap
    rw [Vfs.tiers, hside]
    simp only [hattr]
    rfl

/-- **Writing the data fork** of a file stores the data or fails, where the host does not break off
a write it has begun, and keeps the other forks. -/
theorem writeDataFork_stores (h : IsFile w.tree n.host) (data : List UInt8)
    (hdeny : ∀ t, env.deny t (.write n.host data) = none) :
    wp (writeDataFork env n data)
      (fun _ w' => SameForks n.host w.tree w'.tree ∧ w'.tree.content n.host = some data)
      (fun _ w' => w'.tree = w.tree) w := by
  simp only [writeDataFork, createFile, onTree, onVfs, invalidatePath, wp_bind, wp_zoom, wp_get,
    wp_modify, wp_mapError]
  refine wp_mono (mkdirs_present h.has_parent) (fun _ t₁ h₁ => ?_) fun _ _ h => h
  rw [h₁]
  refine wp_mono (wp_and (writeBytes_stored hdeny) ((writeBytes_rewrote data).wp w.tree))
    (fun _ t' ht => ?_) fun _ _ ht => ht.1
  obtain ⟨hstored, hrewrote⟩ := ht
  obtain ⟨attrs, hlook⟩ := hstored.content
  refine ⟨hrewrote.sameForks h, ?_⟩
  rw [Tree.content, hlook]
  rfl

/-- Reading the data fork of a file. -/
theorem dataFork_of_content {data : List UInt8} (h : w.tree.content n.host = some data)
    (hdeny : env.deny w.tree (.read n.host) = none) : Carbon.dataFork env n w = .ok data w := by
  have hread : readBytes env n.host w.tree = .ok data w.tree := by
    obtain ⟨⟨attrs, content⟩, hlook, hcontent⟩ := Option.bind_eq_some_iff.mp h
    have hsome : content = some data := hcontent
    have hrefuse : refuse env (.read n.host) w.tree = .ok () w.tree := by
      rw [refuse, bind_of_ok (get_eq _), hdeny]
      rfl
    rw [readBytes, bind_of_ok hrefuse, bind_of_ok (get_eq _), hlook, hsome]
    rfl
  rw [Carbon.dataFork, onTree, zoom, mapError, hread]

end Calls

/-! ## Runs -/

/-- A call that writes one of the three forks of a file. -/
inductive FileCall
  | writeDataFork (data : List UInt8)
  | fork (call : ForkCall)

/-- The call on a node. -/
def FileCall.run (env : HostEnv) (n : Node) : FileCall → WorldM Unit
  | .writeDataFork data => Vfs.writeDataFork env n data
  | .fork call => call.run env n

/-- A call, and what the host answers during it. -/
structure FileStep where
  env : HostEnv
  call : FileCall

/-- The sidecar is there to fall back on, and the host does not break off a write to the file that
has begun. -/
structure FileStep.Steady (host : Path) (step : FileStep) : Prop where
  fallback : Fallback step.env host
  write : ∀ t data, step.env.deny t (.write host data) = none

/-- The world, and what the forks were last written. -/
structure FileState where
  world : World
  data : List UInt8
  last : Last

/-- Before anything was written. -/
def FileState.first (n : Node) (w : World) : FileState :=
  ⟨w, (w.tree.content n.host).getD [], firstRead n w⟩

/-- What the forks were last written once a call has returned. -/
def FileCall.record (s : FileState) (w : World) : FileCall → FileState
  | .writeDataFork data => ⟨w, data, s.last⟩
  | .fork call => ⟨w, s.data, call.record s.last⟩

/-- The state after a step, which the step only records when it returns. -/
def fileStep (n : Node) (s : FileState) (step : FileStep) : FileState :=
  match step.call.run step.env n s.world with
  | .ok _ w => step.call.record s w
  | .error _ w => { s with world := w }

/-- The state after a run. -/
def fileRun (n : Node) (s : FileState) (steps : List FileStep) : FileState :=
  steps.foldl (fileStep n) s

/-- The call for another fork that returns meets its condition. -/
def FileStep.Meets (n : Node) (s : FileState) (step : FileStep) : Prop :=
  ∀ call, step.call = .fork call → okState (call.run step.env n s.world) ≠ none →
    call.Meets step.env s.world.tree n.host

/-- Every call does. -/
def AllMeetOn (n : Node) : FileState → List FileStep → Prop
  | _, [] => True
  | s, step :: steps => step.Meets n s ∧ AllMeetOn n (fileStep n s step) steps

section Runs

variable {n : Node} {s : FileState} {step : FileStep}

/-- The data fork is what was written last. -/
structure DataKept (n : Node) (s : FileState) : Prop where
  file : IsFile s.world.tree n.host
  content : s.world.tree.content n.host = some s.data

theorem first_dataKept {w : World} (h : IsFile w.tree n.host) :
    DataKept n (FileState.first n w) where
  file := h
  content := by
    obtain ⟨⟨attrs, content⟩, he⟩ := DirTree.has_iff.mp h.has
    have hdir := h.not_dir
    rw [DirTree.isDir, he] at hdir
    cases content with
    | none => cases hdir
    | some data =>
      show w.tree.content n.host = some ((w.tree.content n.host).getD [])
      rw [Tree.content, he]
      rfl

/-- **One call** leaves the data fork as it was last written. -/
theorem step_dataKept (h : DataKept n s) (hsteady : step.Steady n.host) :
    DataKept n (fileStep n s step) := by
  obtain ⟨env, call⟩ := step
  unfold fileStep
  cases call with
  | writeDataFork data =>
    have hspec := writeDataFork_stores h.file data fun t => hsteady.write t data
    cases hrun : FileCall.run env n (.writeDataFork data) s.world with
    | ok u w =>
      obtain ⟨hsame, hcontent⟩ := wp_of_ok hspec hrun
      exact ⟨hsame.file, hcontent⟩
    | error e w =>
      have htree := wp_of_error hspec hrun
      refine ⟨?_, ?_⟩
      · show IsFile w.tree n.host
        rw [htree]
        exact h.file
      · show w.tree.content n.host = some s.data
        rw [htree]
        exact h.content
  | fork call =>
    have hspec : wp (call.run env n) (fun _ w' => SameData n.host s.world.tree w'.tree)
        (fun _ w' => SameData n.host s.world.tree w'.tree) s.world :=
      forkCall_sameData h.file call
    cases hrun : FileCall.run env n (.fork call) s.world with
    | ok u w =>
      have hsame := wp_of_ok hspec hrun
      exact ⟨hsame.file, hsame.content.trans h.content⟩
    | error e w =>
      have hsame := wp_of_error hspec hrun
      exact ⟨hsame.file, hsame.content.trans h.content⟩

/-- **One call** that meets its condition leaves the other forks as they were last written. -/
theorem step_upToDate (h : UpToDate n (s.world, s.last)) (hsteady : step.Steady n.host)
    (hmeets : step.Meets n s) :
    UpToDate n ((fileStep n s step).world, (fileStep n s step).last) := by
  obtain ⟨env, call⟩ := step
  unfold fileStep
  cases call with
  | writeDataFork data =>
    have hspec := writeDataFork_stores h.file data fun t => hsteady.write t data
    cases hrun : FileCall.run env n (.writeDataFork data) s.world with
    | ok u w =>
      obtain ⟨hsame, -⟩ := wp_of_ok hspec hrun
      exact ⟨hsame.file, (congrArg (Tiers.read · true) hsame.tiers).trans h.last⟩
    | error e w =>
      have htree := wp_of_error hspec hrun
      refine ⟨?_, ?_⟩
      · show IsFile w.tree n.host
        rw [htree]
        exact h.file
      · show (tiers w.tree n.host).read true = s.last
        rw [htree]
        exact h.last
  | fork call =>
    have hstep : UpToDate n (forkStep n (s.world, s.last) ⟨env, call⟩) :=
      (step_iff h hsteady.fallback).mpr fun hret => hmeets call rfl hret
    unfold forkStep at hstep
    cases hrun : FileCall.run env n (.fork call) s.world with
    | ok u w =>
      rw [show call.run env n s.world = .ok u w from hrun] at hstep
      exact hstep
    | error e w =>
      rw [show call.run env n s.world = .error e w from hrun] at hstep
      exact hstep

theorem run_dataKept (h : DataKept n s) {steps : List FileStep}
    (hsteady : ∀ step ∈ steps, step.Steady n.host) : DataKept n (fileRun n s steps) := by
  induction steps generalizing s with
  | nil => exact h
  | cons step steps ih =>
    obtain ⟨hstep, hrest⟩ := List.forall_mem_cons.mp hsteady
    exact ih (step_dataKept h hstep) hrest

theorem run_upToDate (h : UpToDate n (s.world, s.last)) {steps : List FileStep}
    (hsteady : ∀ step ∈ steps, step.Steady n.host) (hmeets : AllMeetOn n s steps) :
    UpToDate n ((fileRun n s steps).world, (fileRun n s steps).last) := by
  induction steps generalizing s with
  | nil => exact h
  | cons step steps ih =>
    obtain ⟨hstep, hrest⟩ := List.forall_mem_cons.mp hsteady
    exact ih (step_upToDate h hstep hmeets.1) hrest hmeets.2

/-- Reading the data fork. -/
theorem DataKept.dataFork (h : DataKept n s) {env : HostEnv}
    (hdeny : env.deny s.world.tree (.read n.host) = none) :
    Carbon.dataFork env n s.world = .ok s.data s.world :=
  dataFork_of_content h.content hdeny

/-- **Each fork of a file reads as it was last written**, after every run of calls that write the
data fork, the resource fork or the Finder info, in any order, each returning or raising: the data
fork without further ado, the other two when the calls for them meet their conditions. -/
theorem file_lastWritten {w : World} (hfile : IsFile w.tree n.host) {steps : List FileStep}
    (hsteady : ∀ step ∈ steps, step.Steady n.host) :
    (∀ env : HostEnv,
      env.deny (fileRun n (.first n w) steps).world.tree (.read n.host) = none →
      Carbon.dataFork env n (fileRun n (.first n w) steps).world =
        .ok (fileRun n (.first n w) steps).data (fileRun n (.first n w) steps).world) ∧
    (AllMeetOn n (.first n w) steps → ∀ env : HostEnv, Fallback env n.host →
      ReadsLast env n
        ((fileRun n (.first n w) steps).world, (fileRun n (.first n w) steps).last)) := by
  refine ⟨fun env hdeny => ?_, fun hmeets env henv => ?_⟩
  · exact (run_dataKept (first_dataKept hfile) hsteady).dataFork hdeny
  · have hfirst : UpToDate n ((FileState.first n w).world, (FileState.first n w).last) :=
      ⟨hfile, firstRead_eq hfile⟩
    exact (run_upToDate hfirst hsteady hmeets).readsLast henv

end Runs

/-- The data fork of a file is written, the resource fork, and the data fork again. -/
def threeSteps : List FileStep :=
  [⟨calm, .writeDataFork [9]⟩, ⟨calm, .fork (.writeResourceFork [1, 2])⟩,
    ⟨calm, .writeDataFork [7, 7]⟩]

/-- Both are read back. -/
theorem file_lastWritten_three :
    let s := fileRun forkNode (.first forkNode fileWorld) threeSteps
    Carbon.dataFork calm forkNode s.world = .ok [7, 7] s.world ∧
      resourceFork calm forkNode s.world = .ok [1, 2] s.world := by
  have hfile : IsFile fileWorld.tree forkNode.host := ⟨by decide, by decide⟩
  have hsteady : ∀ step ∈ threeSteps, step.Steady forkNode.host := by
    intro step hstep
    have hcalm : step.env = calm := by
      simp only [threeSteps, List.mem_cons, List.not_mem_nil, or_false] at hstep
      rcases hstep with rfl | rfl | rfl <;> rfl
    exact ⟨hcalm ▸ calm_fallback _, fun t data => hcalm ▸ rfl⟩
  have hmeets : AllMeetOn forkNode (.first forkNode fileWorld) threeSteps := by
    refine ⟨fun call hcall => (by cases hcall), fun call hcall _ => ?_,
      fun call hcall => (by cases hcall), trivial⟩
    obtain rfl := FileCall.fork.inj hcall
    show ¬ Tiers.Shadows _ _ _ _
    decide
  have hlast := file_lastWritten hfile hsteady
  exact ⟨hlast.1 calm rfl,
    ((hlast.2 hmeets calm (calm_fallback _)).resourceFork rfl).mpr (Or.inl rfl)⟩

end Cwhost.Vfs
