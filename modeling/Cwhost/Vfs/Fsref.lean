import Cwhost.Lib.ByteMemory
import Cwhost.Vfs.Nodes

/-!
# FSRefs (`vfs.py`, `encode_fsref` and `decode_fsref`)

An FSRef holds the number of a node, and is read back through `_NODE_BY_ID`, which all VFS instances
of the process write to, each numbering its nodes from 2.

* `Process`: the VFS instances of a process, and any interleaving of their node creations.
* `fsrefs_decode_iff`: after any run, every node is read back from its FSRef exactly when at most
  one VFS was made and the numbers fit in four bytes.
* `fsrefs_collide`: two instances are enough.
-/

namespace Cwhost.Vfs

open Lib

/-- `encode_fsref`. -/
def encodeFsref (n : Node) : Except Exc (List UInt8) :=
  if n.id ≥ 2 ^ 32 then throw .overflowError
  else pure (toBE 4 n.id ++ List.replicate 76 0)

/-- `decode_fsref`. -/
def decodeFsref (nodeById : Dict Nat Node) (data : List UInt8) : Except Exc Node :=
  if data.length ≠ 80 then throw (.hostError s!"FSRef must be 80 bytes, got {data.length}")
  else
    let nodeId := beNat (slice data 0 4)
    match nodeById.get? nodeId with
    | some n => pure n
    | none => throw (.hostError s!"unknown FSRef node id {nodeId}")

/-- `decode_fsref(encode_fsref(n))` is `n`. -/
def ReadsBack (nodeById : Dict Nat Node) (n : Node) : Prop :=
  ∃ data, encodeFsref n = .ok data ∧ decodeFsref nodeById data = .ok n

theorem decodeFsref_encoded {nodeById : Dict Nat Node} {id : Nat} (h : id < 2 ^ 32) :
    decodeFsref nodeById (toBE 4 id ++ List.replicate 76 0) =
      match nodeById.get? id with
      | some n => .ok n
      | none => .error (.hostError s!"unknown FSRef node id {id}") := by
  have hslice : slice (toBE 4 id ++ List.replicate 76 0) 0 4 = toBE 4 id := by
    rw [slice, List.drop_zero, List.take_left']
    exact toBE_length 4 id
  have hnum : beNat (toBE 4 id) = id := beNat_toBE_of_lt (by omega)
  rw [decodeFsref, if_neg (by simp)]
  simp only [hslice, hnum]
  rfl

/-- **An FSRef is read back by number.** -/
theorem readsBack_iff {nodeById : Dict Nat Node} {n : Node} :
    ReadsBack nodeById n ↔ n.id < 2 ^ 32 ∧ nodeById.get? n.id = some n := by
  by_cases hid : n.id < 2 ^ 32
  · have henc : encodeFsref n = .ok (toBE 4 n.id ++ List.replicate 76 0) := if_neg (by omega)
    rw [ReadsBack, henc]
    constructor
    · rintro ⟨data, hdata, h⟩
      rw [← Except.ok.inj hdata, decodeFsref_encoded hid] at h
      refine ⟨hid, ?_⟩
      cases hget : nodeById.get? n.id with
      | none =>
        rw [hget] at h
        cases h
      | some m =>
        rw [hget] at h
        rw [Except.ok.inj h]
    · rintro ⟨-, h⟩
      refine ⟨_, rfl, ?_⟩
      rw [decodeFsref_encoded hid, h]
  · refine iff_of_false ?_ fun h => hid h.1
    rintro ⟨data, hdata, -⟩
    rw [encodeFsref, if_pos (by omega)] at hdata
    cases hdata

/-! ## Processes -/

/-- `_NODE_BY_ID` and the VFS instances made so far. -/
structure Process where
  nodeById : Dict Nat Node
  vfss : List VFS

/-- A step that makes nodes. -/
inductive ProcessStep
  /-- `VFS(build_root)`. -/
  | create (view : HostView) (buildRoot : Path)
  /-- `vfs.node(path)` on the instance `i`. -/
  | node (i : Nat) (view : HostView) (path : Path)

/-- The step makes a VFS. -/
def ProcessStep.isCreate : ProcessStep → Bool
  | .create _ _ => true
  | .node _ _ _ => false

namespace Process

/-- Before the first VFS. -/
def empty : Process := ⟨.empty, []⟩

/-- The process after a step. -/
def step (p : Process) : ProcessStep → Process
  | .create view buildRoot =>
    let r := Registry.init p.nodeById p.vfss.length (view.resolve buildRoot)
    ⟨r.nodeById, p.vfss ++ [r.vfs]⟩
  | .node i view path =>
    match p.vfss[i]? with
    | some v =>
      let r := (Registry.intern ⟨p.nodeById, v⟩ (view.resolve path)).2
      ⟨r.nodeById, p.vfss.set i r.vfs⟩
    | none => p

/-- The process after the steps of a run. -/
def run (steps : List ProcessStep) : Process := steps.foldl step empty

/-- `n` is a node of an instance of the process. -/
def HasNode (p : Process) (n : Node) : Prop := ∃ v ∈ p.vfss, ∃ k, v.nodes.get? k = some n

end Process

/-! ## Numbers -/

/-- The nodes of a VFS are numbered from 2 on without a gap. -/
structure VFS.Numbered (v : VFS) : Prop where
  wf : v.WF id
  count : v.nextId = v.nodes.keys.length + 2
  issued : ∀ j, 2 ≤ j → j < v.nextId → ∃ k n, v.nodes.get? k = some n ∧ n.id = j

theorem blank_numbered (ident : Nat) (buildRoot : Path) : (VFS.blank ident buildRoot).Numbered where
  wf := blank_wf ident buildRoot
  count := rfl
  issued _ h h' := absurd (Nat.lt_of_le_of_lt h h') (Nat.lt_irrefl 2)

/-- The process dictionary knows every node of the VFS of `s` by its number. -/
def Known (s : Registry) : Prop :=
  ∀ {k n}, s.vfs.nodes.get? k = some n → s.nodeById.get? n.id = some n

theorem file_numbered {s : Registry} (h : s.vfs.Numbered) {host : Path}
    (hnone : s.vfs.nodes.get? (s.vfs.volumeFor host, host) = none) :
    (s.file (s.vfs.newNode host)).vfs.Numbered where
  wf := file_wf h.wf hnone
  count := by
    have hk := Dict.get?_eq_none_iff.mp hnone
    show s.vfs.nextId + 1 =
      ((s.vfs.nodes.set (s.vfs.volumeFor host, host) (s.vfs.newNode host)).items.map
        Prod.fst).length + 2
    rw [Dict.set_items_of_notMem _ hk, List.map_append, List.length_append, h.count]
    show s.vfs.nodes.keys.length + 2 + 1 = s.vfs.nodes.keys.length + 1 + 2
    omega
  issued j hj hlt := by
    rcases Nat.lt_succ_iff_lt_or_eq.mp hlt with hlt | rfl
    · obtain ⟨k, n, hn, hid⟩ := h.issued j hj hlt
      exact ⟨k, n, (file_interned hnone).nodes hn, hid⟩
    · exact ⟨_, _, Dict.get?_set_self _ _ _, rfl⟩

theorem file_known {fold : Str → Str} {s : Registry} (hwf : s.vfs.WF fold) (h : Known s)
    (host : Path) : Known (s.file (s.vfs.newNode host)) := by
  intro k n hn
  show (s.nodeById.set s.vfs.nextId _).get? n.id = some n
  rcases file_nodes hn with ⟨-, rfl⟩ | ⟨-, hn⟩
  · exact Dict.get?_set_self _ _ _
  · rw [Dict.get?_set_of_ne _ _ (Nat.ne_of_lt (hwf.id_lt hn)), h hn]

/-- Filing nodes keeps the dictionary complete. -/
theorem known_filing (fold : Str → Str) : Filing fold (fun s => Known s) where
  intern {s} hwf h host := by
    cases hn : s.vfs.nodes.get? (s.vfs.volumeFor host, host) with
    | some n =>
      rw [intern_found hn]
      exact h
    | none =>
      rw [intern_new hn]
      exact file_known hwf h host
  listings {s s'} h hbyId hnodes _ := by
    intro k n hn
    rw [hnodes] at hn
    rw [hbyId]
    exact h hn

theorem intern_numbered {s : Registry} (h : s.vfs.Numbered) (host : Path) :
    (s.intern host).2.vfs.Numbered ∧ s.vfs.nextId ≤ (s.intern host).2.vfs.nextId ∧
      (Known s → Known (s.intern host).2) := by
  have hknown : Known s → Known (s.intern host).2 :=
    fun hs => (known_filing id).intern h.wf hs host
  cases hn : s.vfs.nodes.get? (s.vfs.volumeFor host, host) with
  | some n =>
    rw [intern_found hn] at hknown ⊢
    exact ⟨h, le_refl _, hknown⟩
  | none =>
    rw [intern_new hn] at hknown ⊢
    exact ⟨file_numbered h hn, Nat.le_succ _, hknown⟩

/-- What holds after any run. -/
structure Process.Inv (p : Process) (creates : Nat) : Prop where
  length : p.vfss.length = creates
  ident : ∀ {i : Nat} {v : VFS}, p.vfss[i]? = some v → v.ident = i
  numbered : ∀ {i : Nat} {v : VFS}, p.vfss[i]? = some v → v.Numbered
  /-- The build root has a node. -/
  started : ∀ {i : Nat} {v : VFS}, p.vfss[i]? = some v → 2 < v.nextId
  /-- While there is one instance, the dictionary is its own. -/
  known : ∀ {v : VFS}, p.vfss = [v] → Known ⟨p.nodeById, v⟩

namespace Process

theorem empty_inv : empty.Inv 0 where
  length := rfl
  ident h := by cases h
  numbered h := by cases h
  started h := by cases h
  known h := by cases h

/-- A step that gives the process the instance `new` at `i` and keeps the others. -/
theorem Inv.of_instance {p p' : Process} {creates creates' i : Nat} {new : VFS} (h : p.Inv creates)
    (hat : ∀ {j : Nat} {v : VFS}, p'.vfss[j]? = some v → p.vfss[j]? = some v ∨ j = i ∧ v = new)
    (hident : new.ident = i) (hnum : new.Numbered) (hstarted : 2 < new.nextId)
    (hlength : p'.vfss.length = creates')
    (hknown : ∀ {v : VFS}, p'.vfss = [v] → Known ⟨p'.nodeById, v⟩) : p'.Inv creates' where
  length := hlength
  ident hv := by
    rcases hat hv with hv | ⟨rfl, rfl⟩
    · exact h.ident hv
    · exact hident
  numbered hv := by
    rcases hat hv with hv | ⟨rfl, rfl⟩
    · exact h.numbered hv
    · exact hnum
  started hv := by
    rcases hat hv with hv | ⟨rfl, rfl⟩
    · exact h.started hv
    · exact hstarted
  known := hknown

theorem create_inv {p : Process} {creates : Nat} (h : p.Inv creates) (view : HostView)
    (buildRoot : Path) : (p.step (.create view buildRoot)).Inv (creates + 1) := by
  have hblank := blank_numbered p.vfss.length (view.resolve buildRoot)
  obtain ⟨hnum, -, hknown⟩ := intern_numbered (s := ⟨p.nodeById, .blank _ _⟩) hblank
    (view.resolve buildRoot)
  obtain ⟨hi, -⟩ := init_spec id p.nodeById p.vfss.length (view.resolve buildRoot)
  have hat : ∀ {i : Nat} {v : VFS}, (p.step (.create view buildRoot)).vfss[i]? = some v →
      p.vfss[i]? = some v ∨ i = p.vfss.length ∧
        v = (Registry.init p.nodeById p.vfss.length (view.resolve buildRoot)).vfs := by
    intro i v hv
    change (p.vfss ++ [_])[i]? = some v at hv
    rw [List.getElem?_append] at hv
    split at hv
    · exact Or.inl hv
    · rename_i hi
      rw [List.getElem?_singleton] at hv
      split at hv
      · exact Or.inr ⟨by omega, (Option.some.inj hv).symm⟩
      · cases hv
  refine h.of_instance hat hi.ident hnum (Nat.lt_succ_self 2) ?_ fun {v} hv => ?_
  · show (p.vfss ++ [_]).length = _
    rw [List.length_append, h.length]
    rfl
  · change p.vfss ++ [_] = [v] at hv
    obtain ⟨hnil, hv⟩ := List.append_eq_singleton_iff.mp hv |>.resolve_right fun h => by
      cases h.2
    obtain rfl := List.singleton_inj.mp hv
    exact hknown fun h => by cases h

theorem node_inv {p : Process} {creates : Nat} (h : p.Inv creates) (i : Nat) (view : HostView)
    (path : Path) : (p.step (.node i view path)).Inv creates := by
  cases hv : p.vfss[i]? with
  | none =>
    rw [step, hv]
    exact h
  | some v =>
    have hwf := (h.numbered hv).wf
    obtain ⟨hi, -, -, -⟩ := intern_spec (s := ⟨p.nodeById, v⟩) hwf (view.resolve path)
    obtain ⟨hnum, hle, hknown⟩ :=
      intern_numbered (s := ⟨p.nodeById, v⟩) (h.numbered hv) (view.resolve path)
    rw [step, hv]
    have hat : ∀ {j : Nat} {w : VFS},
        (p.vfss.set i (Registry.intern ⟨p.nodeById, v⟩ (view.resolve path)).2.vfs)[j]? = some w →
        p.vfss[j]? = some w ∨
          j = i ∧ w = (Registry.intern ⟨p.nodeById, v⟩ (view.resolve path)).2.vfs := by
      intro j w hw
      rw [List.getElem?_set] at hw
      split at hw
      · rename_i hij
        split at hw
        · exact Or.inr ⟨hij.symm, (Option.some.inj hw).symm⟩
        · cases hw
      · exact Or.inl hw
    refine h.of_instance hat (hi.ident.trans (h.ident hv)) hnum
      (Nat.lt_of_lt_of_le (h.started hv) hle) (List.length_set.trans h.length) fun {w} hw => ?_
    change p.vfss.set i _ = [w] at hw
    have hlen : p.vfss.length = 1 := by
      rw [← List.length_set, hw]
      rfl
    obtain ⟨u, hu⟩ := List.length_eq_one_iff.mp hlen
    have hi0 : i = 0 := by
      have := (List.getElem?_eq_some_iff.mp hv).1
      omega
    rw [hu, hi0] at hv hw
    obtain rfl : u = v := Option.some.inj hv
    obtain rfl : _ = w := List.singleton_inj.mp hw
    have hknown' : Known (Registry.intern ⟨p.nodeById, u⟩ (view.resolve path)).2 :=
      hknown (h.known hu)
    exact @hknown'

theorem run_inv (steps : List ProcessStep) :
    (run steps).Inv (steps.countP ProcessStep.isCreate) := by
  induction steps using List.reverseRecOn with
  | nil => exact empty_inv
  | append_singleton steps s ih =>
    rw [run, List.foldl_append, List.countP_append]
    cases s with
    | create view buildRoot => exact create_inv ih view buildRoot
    | node i view path => exact node_inv ih i view path

end Process

/-- **Exactly when FSRefs identify their nodes**: at most one VFS was made so far, and it has no
more nodes than four bytes can number. -/
theorem fsrefs_decode_iff (steps : List ProcessStep) :
    (∀ n, (Process.run steps).HasNode n → ReadsBack (Process.run steps).nodeById n) ↔
      steps.countP ProcessStep.isCreate ≤ 1 ∧
        ∀ v ∈ (Process.run steps).vfss, v.nodes.keys.length + 2 ≤ 2 ^ 32 := by
  have hinv := Process.run_inv steps
  constructor
  · intro h
    constructor
    · by_contra hmany
      have hlen := hinv.length
      have h0 := List.getElem?_eq_getElem (l := (Process.run steps).vfss) (i := 0) (by omega)
      have h1 := List.getElem?_eq_getElem (l := (Process.run steps).vfss) (i := 1) (by omega)
      obtain ⟨k0, n0, hn0, hid0⟩ := (hinv.numbered h0).issued 2 (le_refl 2) (hinv.started h0)
      obtain ⟨k1, n1, hn1, hid1⟩ := (hinv.numbered h1).issued 2 (le_refl 2) (hinv.started h1)
      have hr0 := (readsBack_iff.mp (h n0 ⟨_, List.mem_of_getElem? h0, k0, hn0⟩)).2
      have hr1 := (readsBack_iff.mp (h n1 ⟨_, List.mem_of_getElem? h1, k1, hn1⟩)).2
      rw [hid0] at hr0
      rw [hid1, hr0] at hr1
      have ho0 := ((hinv.numbered h0).wf.owner hn0).trans (hinv.ident h0)
      have ho1 := ((hinv.numbered h1).wf.owner hn1).trans (hinv.ident h1)
      rw [Option.some.inj hr1, ho1] at ho0
      cases ho0
    · intro v hv
      obtain ⟨i, hi⟩ := List.mem_iff_getElem?.mp hv
      have hnum := hinv.numbered hi
      have hstart := hinv.started hi
      obtain ⟨k, n, hn, hid⟩ := hnum.issued (v.nextId - 1) (by omega) (by omega)
      have := (readsBack_iff.mp (h n ⟨v, hv, k, hn⟩)).1
      have := hnum.count
      omega
  · rintro ⟨hone, hbound⟩ n ⟨v, hv, k, hn⟩
    obtain ⟨i, hi⟩ := List.mem_iff_getElem?.mp hv
    have hnum := hinv.numbered hi
    have hlt := hnum.wf.id_lt hn
    have hlen : (Process.run steps).vfss.length = 1 := by
      have := hinv.length
      have := List.length_pos_of_mem hv
      omega
    obtain ⟨u, hu⟩ := List.length_eq_one_iff.mp hlen
    rw [hu, List.mem_singleton] at hv
    subst hv
    have := hbound v (hu ▸ List.mem_singleton_self v)
    have := hnum.count
    exact readsBack_iff.mpr ⟨by omega, hinv.known hu hn⟩

/-- A host without entries. -/
def bareHost : HostView := ⟨id, fun _ => false, fun p => .error (noEntry p)⟩

/-- **Two instances collide**: the FSRef of the first one's root is read back as the second's. -/
theorem fsrefs_collide : ¬ ∀ (steps : List ProcessStep) (n : Node),
    (Process.run steps).HasNode n → ReadsBack (Process.run steps).nodeById n := by
  intro h
  have := h [.create bareHost [['p']], .create bareHost [['q']]] ⟨0, [['p']], .build, 2⟩
    ⟨_, List.mem_cons_self, (.build, [['p']]), rfl⟩
  exact absurd (readsBack_iff.mp this).2 (by decide)

end Cwhost.Vfs
