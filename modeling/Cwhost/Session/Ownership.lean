import Cwhost.Session.HandleTables

/-!
# Ownership of guest memory by the handles of a session

The classic handles and the `CWMemHandle`s share one heap. `Stepped op s s'` is what any
operation, whether it ends normally or raises, leaves true:

* the ownership invariant `Inv` of the tables, hence the blocks of all handles are live, of the
  right sizes and pairwise different;
* the guest words, as long as the guest has not written them;
* every handle the operation is not about: its record, its words and the contents of its block.

`reachable_owned` carries this over every interleaving of operations and guest execution.
-/

namespace Cwhost.HandleTables

open Lib

variable {M : ByteMemory} {s s' : HandleTables M}

/-- An operation on one of the two tables. -/
inductive Op
  | new (size : Int) (clear : Bool)
  | dispose (master : Int)
  | resize (master size : Int)
  | lock (master : Int)
  | unlock (master : Int)
  | setState (master state : Int)
  | allocCwHandle (raw : List UInt8) (requestScoped : Bool)
  | freeCwHandle (handle : Int)
  | freeRequestHandles

/-- The call itself. -/
def Op.call : Op → EStateM Exc (HandleTables M) Unit
  | .new size clear => discard (onHandles (Handles.new size clear))
  | .dispose master => onHandles (Handles.dispose master)
  | .resize master size => discard (onHandles (Handles.resize master size))
  | .lock master => onHandles (Handles.lock master)
  | .unlock master => onHandles (Handles.unlock master)
  | .setState master state => onHandles (Handles.setState master state)
  | .allocCwHandle raw requestScoped => discard (HandleTables.allocCwHandle raw requestScoped)
  | .freeCwHandle handle => HandleTables.freeCwHandle handle
  | .freeRequestHandles => HandleTables.freeRequestHandles

/-- The operation is about the classic handle `m`. -/
def Op.onClassic (m : Nat) : Op → Prop
  | .dispose master | .resize master _ | .lock master | .unlock master | .setState master _ =>
    (m : Int) = master
  | .new .. | .allocCwHandle .. | .freeCwHandle _ | .freeRequestHandles => False

/-- The operation is about the `CWMemHandle` `a` with record `c`. -/
def Op.onCw (a : Nat) (c : CWMemHandle) : Op → Prop
  | .freeCwHandle handle => (a : Int) = handle
  | .freeRequestHandles => c.requestScoped = true
  | .new .. | .dispose _ | .resize .. | .lock _ | .unlock _ | .setState .. | .allocCwHandle .. =>
    False

/-- A classic handle is the same before and after: address and size of its block, state bits,
master word and contents. -/
structure SameHandle (s s' : HandleTables M) (m : Nat) (v : Handle) : Prop where
  record : s'.classic.handles.get? m = some v
  word : s'.heap.guest.word m = s.heap.guest.word m
  contents : ByteMemory.bytes s'.heap.guest.uc v.block v.requestedSize =
    ByteMemory.bytes s.heap.guest.uc v.block v.requestedSize

/-- A `CWMemHandle` is the same before and after. -/
structure SameCwHandle (s s' : HandleTables M) (a : Nat) (c : CWMemHandle) : Prop where
  record : s'.cwHandles.get? a = some c
  blockWord : s'.heap.guest.word a = s.heap.guest.word a
  sizeWord : s'.heap.guest.word (a + 4) = s.heap.guest.word (a + 4)
  contents : ByteMemory.bytes s'.heap.guest.uc c.block c.size =
    ByteMemory.bytes s.heap.guest.uc c.block c.size

/-- **What every operation leaves true**, normal or not. -/
structure Stepped (op : Op) (s s' : HandleTables M) : Prop where
  inv : Inv s'
  words : Words s → Words s'
  classic : ∀ m v, s.classic.handles.get? m = some v → ¬ op.onClassic m → SameHandle s s' m v
  cw : ∀ a c, s.cwHandles.get? a = some c → ¬ op.onCw a c → SameCwHandle s s' a c

/-! ## From kept blocks to handles -/

theorem sameHandle_of_keeps {m : Nat} {v : Handle} {l : List Range} (hm : v.master = m)
    (hk : Heap.Keeps s.heap s'.heap l) (hsub : v.owned ⊆ l)
    (hr : s'.classic.handles.get? m = some v) : SameHandle s s' m v := by
  refine ⟨hr, ?_, ?_⟩
  · exact hk.word_eq (hsub List.mem_cons_self) (le_of_eq hm) (by simp only; omega)
  · exact hk.bytes_eq (hsub (List.mem_cons_of_mem _ List.mem_cons_self)) (le_max_left _ _)

theorem sameCwHandle_of_keeps {a : Nat} {c : CWMemHandle} {l : List Range} (ha : c.handle = a)
    (hk : Heap.Keeps s.heap s'.heap l) (hsub : c.owned ⊆ l)
    (hr : s'.cwHandles.get? a = some c) : SameCwHandle s s' a c := by
  have hrec : (c.handle, 8) ∈ l := hsub List.mem_cons_self
  refine ⟨hr, ?_, ?_, ?_⟩
  · exact hk.word_eq hrec (le_of_eq ha) (by simp only; omega)
  · exact hk.word_eq hrec (by simp only; omega) (by simp only; omega)
  · exact hk.bytes_eq (hsub (List.mem_cons_of_mem _ List.mem_cons_self)) (le_max_left _ _)

theorem classic_subset {m : Nat} {v : Handle} (hg : s.classic.handles.get? m = some v) :
    v.owned ⊆ s.owned := fun _ hr => List.mem_append_left _ (Dict.collect_subset hg hr)

theorem cw_subset {a : Nat} {c : CWMemHandle} (hg : s.cwHandles.get? a = some c) :
    c.owned ⊆ s.owned := fun _ hr => List.mem_append_right _ (Dict.collect_subset hg hr)

/-- A handle of the new table is an old one that was kept, or its words are known. -/
theorem Stepped.intro {op : Op} {l : List Range} (hi : Inv s) (hi' : Inv s')
    (hk : Heap.Keeps s.heap s'.heap l)
    (hclassic : ∀ m v, s.classic.handles.get? m = some v → ¬ op.onClassic m →
      s'.classic.handles.get? m = some v ∧ v.owned ⊆ l)
    (hcw : ∀ a c, s.cwHandles.get? a = some c → ¬ op.onCw a c →
      s'.cwHandles.get? a = some c ∧ c.owned ⊆ l)
    (hwords : Words s → ∀ m v, s'.classic.handles.get? m = some v →
      (s.classic.handles.get? m = some v ∧ ¬ op.onClassic m) ∨ s'.heap.guest.word m = v.block)
    (hcwWords : Words s → ∀ a c, s'.cwHandles.get? a = some c →
      (s.cwHandles.get? a = some c ∧ ¬ op.onCw a c) ∨
        (s'.heap.guest.word a = c.block ∧ s'.heap.guest.word (a + 4) = c.size)) :
    Stepped op s s' := by
  have h1 : ∀ m v, s.classic.handles.get? m = some v → ¬ op.onClassic m → SameHandle s s' m v :=
    fun m v hg hn => sameHandle_of_keeps (hi.classic.keyed m v hg) hk (hclassic m v hg hn).2
      (hclassic m v hg hn).1
  have h2 : ∀ a c, s.cwHandles.get? a = some c → ¬ op.onCw a c → SameCwHandle s s' a c :=
    fun a c hg hn => sameCwHandle_of_keeps (hi.cwKeyed a c hg) hk (hcw a c hg hn).2
      (hcw a c hg hn).1
  refine ⟨hi', fun hw => ⟨fun m v hg => ?_, fun a c hg => ?_, fun a c hg => ?_⟩, h1, h2⟩
  · rcases hwords hw m v hg with ⟨hold, hn⟩ | hword
    · exact (h1 m v hold hn).word.trans (hw.classic m v hold)
    · exact hword
  · rcases hcwWords hw a c hg with ⟨hold, hn⟩ | hword
    · exact (h2 a c hold hn).blockWord.trans (hw.cwBlock a c hold)
    · exact hword.1
  · rcases hcwWords hw a c hg with ⟨hold, hn⟩ | hword
    · exact (h2 a c hold hn).sizeWord.trans (hw.cwSize a c hold)
    · exact hword.2

/-- Tables that are the same have stepped, whatever the operation was. -/
theorem Unchanged.stepped (hi : Inv s) (hu : Unchanged s s') (op : Op) : Stepped op s s' := by
  refine ⟨hu.inv, fun hw => ⟨fun m v hg => ?_, fun a c hg => ?_, fun a c hg => ?_⟩,
    fun m v hg _ => ?_, fun a c hg _ => ?_⟩
  · rw [hu.classic] at hg
    exact (sameHandle_of_keeps (hi.classic.keyed m v hg) hu.keeps (classic_subset hg)
      (hu.classic ▸ hg)).word.trans (hw.classic m v hg)
  · rw [hu.cwHandles] at hg
    exact (sameCwHandle_of_keeps (hi.cwKeyed a c hg) hu.keeps (cw_subset hg)
      (hu.cwHandles ▸ hg)).blockWord.trans (hw.cwBlock a c hg)
  · rw [hu.cwHandles] at hg
    exact (sameCwHandle_of_keeps (hi.cwKeyed a c hg) hu.keeps (cw_subset hg)
      (hu.cwHandles ▸ hg)).sizeWord.trans (hw.cwSize a c hg)
  · exact sameHandle_of_keeps (hi.classic.keyed m v hg) hu.keeps (classic_subset hg)
      (hu.classic ▸ hg)
  · exact sameCwHandle_of_keeps (hi.cwKeyed a c hg) hu.keeps (cw_subset hg) (hu.cwHandles ▸ hg)

/-! ## The operations on classic handles -/

/-- A step of the classic handles that keeps the blocks `l` and touches no record but that of
`m`, whose word it leaves right. -/
theorem classicStepped {op : Op} {t : Handles M} {m : Nat} {l : List Range} (hi : Inv s)
    (hon : ∀ q, op.onClassic q → q = m) (honCw : ∀ a c, ¬ op.onCw a c)
    (hne : ∀ q v, s.classic.handles.get? q = some v → ¬ op.onClassic q → q ≠ m)
    (ht : t.Inv (cwOwned s.cwHandles)) (hk : Heap.Keeps s.heap t.heap l)
    (hl : ∀ q v, s.classic.handles.get? q = some v → q ≠ m → v.owned ⊆ l)
    (hcw : cwOwned s.cwHandles ⊆ l)
    (hother : ∀ q, q ≠ m → t.handles.get? q = s.classic.handles.get? q)
    (hword : Words s → ∀ v, t.handles.get? m = some v → t.heap.guest.word m = v.block) :
    Stepped op s { s with classic := t } := by
  refine Stepped.intro (l := l) hi ⟨ht, hi.cwKeyed⟩ hk (fun q v hg hn => ?_) (fun a c hg _ => ?_)
    (fun hw q v hg => ?_) (fun hw a c hg => Or.inl ⟨hg, honCw a c⟩)
  · exact ⟨(hother q (hne q v hg hn)).trans hg, hl q v hg (hne q v hg hn)⟩
  · exact ⟨hg, fun r hr => hcw (Dict.collect_subset hg hr)⟩
  · by_cases hq : q = m
    · subst hq
      exact Or.inr (hword hw v hg)
    · exact Or.inl ⟨(hother q hq).symm.trans hg, fun hc => hq (hon q hc)⟩

/-- The kept blocks when nothing but the handle `m` is touched. -/
theorem owned_subset_erase {d : Dict Nat Handle} {rest : List Range} {m q : Nat} {v : Handle}
    (hg : d.get? q = some v) (hq : q ≠ m) : v.owned ⊆ Handles.owned (d.erase m) ++ rest :=
  fun _ hr => List.mem_append_left _
    (Dict.collect_subset ((Dict.get?_erase_of_ne d hq).trans hg) hr)

theorem new_stepped (hi : Inv s) {size : Int} {clear : Bool} {t : Handles M} {m : Nat}
    (hc : s.classic.Created t (cwOwned s.cwHandles) size.toNat m) :
    Stepped (.new size clear) s { s with classic := t } := by
  obtain ⟨b, htab, hword⟩ := hc.table
  refine classicStepped (m := m) hi (fun _ h => h.elim) (fun _ _ h => h) (fun q v hg _ hq => ?_)
    hc.inv hc.keeps (fun q v hg _ => classic_subset hg)
    (fun _ hr => List.mem_append_right _ hr) (fun q hq => ?_) fun _ v hg => ?_
  · rw [hq, hc.fresh] at hg
    exact absurd hg (by simp)
  · rw [htab, Dict.get?_set_of_ne _ _ hq]
  · rw [htab, Dict.get?_set_self, Option.some.injEq] at hg
    rw [hword, ← hg]

theorem dispose_stepped (hi : Inv s) {master : Int} {t : Handles M}
    (hd : s.classic.Disposed t (cwOwned s.cwHandles) master.toNat)
    (hm : (master.toNat : Int) = master) :
    Stepped (.dispose master) s { s with classic := t } := by
  refine classicStepped (m := master.toNat) hi (fun q h => ?_) (fun _ _ h => h)
    (fun q v _ hn hq => hn (by rw [hq]; exact hm)) hd.inv (Heap.Keeps.of_guest_eq hd.guest s.owned)
    (fun q v hg _ => classic_subset hg) (fun _ hr => List.mem_append_right _ hr) (fun q hq => ?_)
    fun _ v hg => ?_
  · have : (q : Int) = master := h
    omega
  · rw [hd.table, Dict.get?_erase_of_ne _ hq]
  · rw [hd.table, Dict.get?_erase_self] at hg
    exact absurd hg (by simp)

theorem resize_stepped (hi : Inv s) {master size : Int} {t : Handles M}
    (hr : s.classic.Resized t (cwOwned s.cwHandles) master.toNat size.toNat)
    (hm : (master.toNat : Int) = master) :
    Stepped (.resize master size) s { s with classic := t } := by
  obtain ⟨v₀, b, -, htab, hword⟩ := hr.table
  refine classicStepped (m := master.toNat) hi (fun q h => ?_) (fun _ _ h => h)
    (fun q v _ hn hq => hn (by rw [hq]; exact hm)) hr.inv hr.keeps
    (fun q v hg hq => owned_subset_erase hg hq) (fun _ hr => List.mem_append_right _ hr)
    (fun q hq => ?_) fun _ v hg => ?_
  · have : (q : Int) = master := h
    omega
  · rw [htab, Dict.get?_set_of_ne _ _ hq]
  · rw [htab, Dict.get?_set_self, Option.some.injEq] at hg
    rw [hword, ← hg]

/-- The three operations on the state bits. -/
theorem mark_stepped (hi : Inv s) {op : Op} {master : Int} {t : Handles M}
    (hop : ∀ m, op.onClassic m ↔ (m : Int) = master) (honCw : ∀ a c, ¬ op.onCw a c)
    (hk : s.classic.Marked t (cwOwned s.cwHandles) master.toNat)
    (hm : (master.toNat : Int) = master) : Stepped op s { s with classic := t } := by
  obtain ⟨v₀, bits, hg₀, htab⟩ := hk.table
  refine classicStepped (m := master.toNat) hi (fun q h => ?_) honCw
    (fun q v _ hn hq => hn ((hop q).mpr (by rw [hq]; exact hm))) hk.inv
    (Heap.Keeps.of_guest_eq (by rw [hk.heap]; rfl) s.owned)
    (fun q v hg _ => classic_subset hg) (fun _ hr => List.mem_append_right _ hr) (fun q hq => ?_)
    fun hw v hg => ?_
  · have := (hop q).mp h
    omega
  · rw [htab, Dict.get?_set_of_ne _ _ hq]
  · rw [htab, Dict.get?_set_self, Option.some.injEq] at hg
    rw [hk.heap, ← hg]
    exact hw.classic _ v₀ hg₀

/-! ## The operations on `CWMemHandle`s -/

theorem allocCw_stepped (hi : Inv s) {raw : List UInt8} {requestScoped : Bool} {a : Nat}
    (hc : CwCreated s s' raw.length requestScoped a) :
    Stepped (.allocCwHandle raw requestScoped) s s' := by
  obtain ⟨b, htab, hblock, hsize⟩ := hc.table
  refine Stepped.intro hi hc.inv hc.keeps (fun m v hg _ => ?_) (fun q c hg _ => ?_)
    (fun _ m v hg => Or.inl ⟨hc.classic ▸ hg, fun h => h⟩) fun _ q c hg => ?_
  · exact ⟨hc.classic.symm ▸ hg, classic_subset hg⟩
  · have hq : q ≠ a := fun hq => by
      rw [hq, hc.fresh] at hg
      exact absurd hg (by simp)
    exact ⟨by rw [htab, Dict.get?_set_of_ne _ _ hq, hg], cw_subset hg⟩
  · rw [htab, Dict.get?_set] at hg
    split at hg
    · rename_i hq
      rw [← Option.some.inj hg, hq]
      exact Or.inr ⟨hblock, hsize⟩
    · exact Or.inl ⟨hg, fun h => h⟩

theorem cwFreed_stepped {op : Op} (hi : Inv s) {keep : Nat × CWMemHandle → Bool}
    (hon : ∀ m, ¬ op.onClassic m)
    (hkeep : ∀ a c, s.cwHandles.get? a = some c → (keep (a, c) = true ↔ ¬ op.onCw a c))
    (hf : CwFreed s s' keep) : Stepped op s s' := by
  have hget : ∀ a c, s'.cwHandles.get? a = some c ↔
      s.cwHandles.get? a = some c ∧ keep (a, c) = true := fun a c => by
    rw [Dict.get?_eq_some_iff, hf.table, List.mem_filter, Dict.get?_eq_some_iff]
  refine Stepped.intro hi hf.inv (Heap.Keeps.of_guest_eq hf.guest s.owned) (fun m v hg _ => ?_)
    (fun a c hg hn => ?_) (fun _ m v hg => Or.inl ⟨hf.classic ▸ hg, hon m⟩) fun _ a c hg => ?_
  · exact ⟨hf.classic.symm ▸ hg, classic_subset hg⟩
  · exact ⟨(hget a c).mpr ⟨hg, (hkeep a c hg).mpr hn⟩, cw_subset hg⟩
  · obtain ⟨hold, hk⟩ := (hget a c).mp hg
    exact Or.inl ⟨hold, (hkeep a c hold).mp hk⟩

/-! ## One operation -/

/-- An operation that only raises `HostError`, and steps either way. -/
def Spec (op : Op) (s : HandleTables M) : Prop :=
  wp op.call (fun _ s' => Stepped op s s') (fun e s' => e.isHostError = true ∧ Stepped op s s') s

theorem Inv.stepped_self (hi : Inv s) (op : Op) : Stepped op s s := hi.unchanged.stepped hi op

theorem mark_spec (hi : Inv s) {op : Op} {master : Int} {x : EStateM Exc (Handles M) Unit}
    (hcall : op.call = onHandles x) (hop : ∀ m, op.onClassic m ↔ (m : Int) = master)
    (honCw : ∀ a c, ¬ op.onCw a c)
    (hx : wp x (fun _ t => (master.toNat : Int) = master ∧
      s.classic.Marked t (cwOwned s.cwHandles) master.toNat)
      (fun e t => e.isHostError = true ∧ t = s.classic) s.classic) : Spec op s := by
  unfold Spec
  rw [hcall, onHandles, wp_zoom]
  refine wp_mono hx (fun _ t h => mark_stepped hi hop honCw h.2 h.1) fun e t he => ?_
  obtain ⟨he, rfl⟩ := he
  exact ⟨he, hi.stepped_self op⟩

/-- **Every operation steps.** -/
theorem call_spec (hi : Inv s) (op : Op) : Spec op s := by
  cases op with
  | new size clear =>
    refine wp_discard.mpr ?_
    rw [onHandles, wp_zoom]
    refine wp_mono (Handles.new_spec hi.classic size clear) (fun _ t h => new_stepped hi h)
      fun e t he => ?_
    obtain ⟨he, hu⟩ := he
    have hu' : Unchanged s { s with classic := t } :=
      ⟨⟨hu.inv, hi.cwKeyed⟩, hu.table, rfl, hu.keeps⟩
    exact ⟨he, hu'.stepped hi _⟩
  | dispose master =>
    refine wp_zoom.mpr ?_
    refine wp_mono (Handles.dispose_spec hi.classic master)
      (fun _ t h => dispose_stepped hi h.2 h.1) fun e t he => ?_
    obtain ⟨he, rfl, -⟩ := he
    exact ⟨he, hi.stepped_self _⟩
  | resize master size =>
    refine wp_discard.mpr ?_
    rw [onHandles, wp_zoom]
    refine wp_mono (Handles.resize_spec hi.classic master size)
      (fun _ t h => resize_stepped hi h.2 h.1) fun e t he => ?_
    obtain ⟨he, rfl⟩ := he
    exact ⟨he, hi.stepped_self _⟩
  | lock master =>
    exact mark_spec hi rfl (fun _ => Iff.rfl) (fun _ _ h => h) (Handles.lock_spec hi.classic master)
  | unlock master =>
    exact mark_spec hi rfl (fun _ => Iff.rfl) (fun _ _ h => h)
      (Handles.unlock_spec hi.classic master)
  | setState master state =>
    exact mark_spec hi rfl (fun _ => Iff.rfl) (fun _ _ h => h)
      (Handles.setState_spec hi.classic master state)
  | allocCwHandle raw requestScoped =>
    refine wp_discard.mpr (wp_mono (allocCwHandle_spec hi raw requestScoped)
      (fun _ _ h => allocCw_stepped hi h) fun e t he => ⟨he.1, he.2.stepped hi _⟩)
  | freeCwHandle handle =>
    refine wp_mono (freeCwHandle_spec hi handle) (fun _ _ h => ?_) fun e t he => ?_
    · obtain ⟨hnat, hf⟩ := h
      refine cwFreed_stepped hi (fun _ h => h) (fun a c hg => ?_) hf
      simp only [Op.onCw, decide_eq_true_eq]
      omega
    · obtain ⟨he, rfl, -⟩ := he
      exact ⟨he, hi.stepped_self _⟩
  | freeRequestHandles =>
    refine wp_mono (freeRequestHandles_spec hi) (fun _ _ h => ?_) fun _ _ h => h.elim
    refine cwFreed_stepped hi (fun _ h => h) (fun a c _ => ?_) h
    simp [Op.onCw]

/-! ## Every interleaving -/

/-- The guest runs: it may write any mapped byte but those of the handles' words. -/
structure GuestRuns (s s' : HandleTables M) : Prop where
  classic : s'.classic.handles = s.classic.handles
  cwHandles : s'.cwHandles = s.cwHandles
  heap : ∃ g, s'.heap = { s.heap with guest := g }
  mapped : ∀ x, M.mapped s'.heap.guest.uc x ↔ M.mapped s.heap.guest.uc x
  masters : ∀ m v, s.classic.handles.get? m = some v → ∀ x, Has (m, 4) x →
    s'.heap.guest.byte x = s.heap.guest.byte x
  records : ∀ a c, s.cwHandles.get? a = some c → ∀ x, Has (a, 8) x →
    s'.heap.guest.byte x = s.heap.guest.byte x

/-- The tables reached from a new session by operations, each succeeding or raising, interleaved
with runs of the guest. -/
inductive Reachable (heap : Heap M) : HandleTables M → Prop
  | new : Reachable heap (new heap)
  | call (op : Op) {s : HandleTables M} : Reachable heap s → Reachable heap (endState (op.call s))
  | guest {s s' : HandleTables M} : Reachable heap s → GuestRuns s s' → Reachable heap s'

theorem GuestRuns.inv (hg : GuestRuns s s') (hi : Inv s) : Inv s' := by
  obtain ⟨g, hheap⟩ := hg.heap
  have hm := hg.mapped
  rw [hheap] at hm
  refine ⟨⟨?_, by rw [hg.classic]; exact hi.classic.keyed⟩, by rw [hg.cwHandles]; exact hi.cwKeyed⟩
  show Heap.Owns s'.heap s'.owned
  rw [hheap, owned, hg.classic, hg.cwHandles]
  exact hi.owns.withGuest hm

theorem GuestRuns.words (hg : GuestRuns s s') (hw : Words s) : Words s' := by
  refine ⟨fun m v h => ?_, fun a c h => ?_, fun a c h => ?_⟩
  · rw [hg.classic] at h
    exact (Guest.word_congr fun x h1 h2 => hg.masters m v h x ⟨h1, h2⟩).trans (hw.classic m v h)
  · rw [hg.cwHandles] at h
    refine (Guest.word_congr fun x h1 h2 => hg.records a c h x ⟨h1, ?_⟩).trans (hw.cwBlock a c h)
    simp only
    omega
  · rw [hg.cwHandles] at h
    refine (Guest.word_congr fun x h1 h2 => hg.records a c h x ⟨?_, ?_⟩).trans (hw.cwSize a c h)
    · simp only
      omega
    · simp only
      omega

/-- Ownership does not depend on the contents of the memory. -/
theorem Inv.withGuest (hi : Inv s) {x : EStateM Exc (Guest M) Unit}
    (hx : wp x (fun _ g => ∀ y, M.mapped g.uc y ↔ M.mapped s.heap.guest.uc y)
      (fun _ g => ∀ y, M.mapped g.uc y ↔ M.mapped s.heap.guest.uc y) s.heap.guest) :
    wp (onGuest x) (fun _ s' => Inv s') (fun _ s' => Inv s') s := by
  simp only [onGuest, onHandles, Handles.onGuest, Handles.onHeap, Heap.onGuest, wp_zoom]
  exact wp_mono hx (fun _ _ hm => ⟨⟨hi.owns.withGuest hm, hi.classic.keyed⟩, hi.cwKeyed⟩)
    fun _ _ hm => ⟨⟨hi.owns.withGuest hm, hi.classic.keyed⟩, hi.cwKeyed⟩

theorem new_inv {heap : Heap M} (hw : heap.WF) : Inv (new heap) :=
  ⟨⟨hw.owns_nil, fun _ _ h => absurd h (by simp [new])⟩, fun _ _ h => absurd h (by simp [new])⟩

theorem new_words (heap : Heap M) : Words (new heap) :=
  ⟨fun _ _ h => absurd h (by simp [new]), fun _ _ h => absurd h (by simp [new]),
    fun _ _ h => absurd h (by simp [new])⟩

/-- **Every reachable state** owns its blocks and holds its words. -/
theorem Reachable.inv {heap : Heap M} (hheap : heap.WF) (hr : Reachable heap s) :
    Inv s ∧ Words s := by
  induction hr with
  | new => exact ⟨new_inv hheap, new_words heap⟩
  | call op _ ih =>
    have hs := wp_endState (wp_mono (call_spec ih.1 op) (fun _ _ h => h) fun _ _ h => h.2)
    exact ⟨hs.inv, hs.words ih.2⟩
  | guest _ hg ih => exact ⟨hg.inv ih.1, hg.words ih.2⟩

/-- What a state says of its handles: each owns its live blocks and its words are right. -/
structure HandlesOwn (s : HandleTables M) : Prop where
  master : ∀ m v, s.classic.handles.get? m = some v → s.heap.allocations.get? m = some 4
  block : ∀ m v, s.classic.handles.get? m = some v →
    s.heap.allocations.get? v.block = some (max v.requestedSize 1)
  record : ∀ a c, s.cwHandles.get? a = some c → s.heap.allocations.get? a = some 8
  cwBlock : ∀ a c, s.cwHandles.get? a = some c →
    s.heap.allocations.get? c.block = some (max c.size 1)
  /-- All these blocks of all handles of both tables are at different addresses. -/
  distinct : (s.owned.map Prod.fst).Nodup
  words : Words s

theorem Inv.handlesOwn (hi : Inv s) (hw : Words s) : HandlesOwn s where
  master m v hg := by
    have := hi.owns.live _ (classic_subset hg List.mem_cons_self)
    rwa [hi.classic.keyed m v hg] at this
  block m v hg := hi.owns.live _ (classic_subset hg (List.mem_cons_of_mem _ List.mem_cons_self))
  record a c hg := by
    have := hi.owns.live _ (cw_subset hg List.mem_cons_self)
    rwa [hi.cwKeyed a c hg] at this
  cwBlock a c hg := hi.owns.live _ (cw_subset hg (List.mem_cons_of_mem _ List.mem_cons_self))
  distinct := hi.owns.nodup
  words := hw

/-- **Disposing a live handle** never raises, and its blocks are free afterwards. -/
theorem dispose_live (hi : Inv s) {m : Nat} {v : Handle}
    (hg : s.classic.handles.get? m = some v) :
    wp (onHandles (Handles.dispose m))
      (fun _ s' => s'.classic.handles.get? m = none ∧
        ∀ x, Covers v.owned x → Covers s'.heap.freeList x) (fun _ _ => False) s := by
  rw [onHandles, wp_zoom]
  refine wp_mono (Handles.dispose_spec hi.classic (m : Int)) (fun _ t hd => ?_) fun _ _ he => ?_
  · obtain ⟨-, hd⟩ := hd
    rw [Int.toNat_natCast] at hd
    exact ⟨by rw [hd.table, Dict.get?_erase_self], hd.free v hg⟩
  · rw [Dict.find?_natCast, hg] at he
    simp at he

/-- **Freeing a live `CWMemHandle`** never raises, and its blocks are free afterwards. -/
theorem freeCw_live (hi : Inv s) {a : Nat} {c : CWMemHandle} (hg : s.cwHandles.get? a = some c) :
    wp (freeCwHandle a)
      (fun _ s' => s'.cwHandles.get? a = none ∧
        ∀ x, Covers c.owned x → Covers s'.heap.freeList x) (fun _ _ => False) s := by
  refine wp_mono (freeCwHandle_spec hi (a : Int)) (fun _ s' hf => ?_) fun _ _ he => ?_
  · obtain ⟨-, hf⟩ := hf
    rw [Int.toNat_natCast] at hf
    refine ⟨Dict.get?_eq_none_iff.mpr fun hk => ?_, fun x hx => hf.free x (Or.inr ?_)⟩
    · obtain ⟨e, he, hea⟩ := List.mem_map.mp hk
      rw [hf.table, List.mem_filter] at he
      exact absurd hea (by simpa using he.2)
    · exact ⟨(a, c), Dict.get?_eq_some_iff.mp hg, by simp, hx⟩
  · rw [Dict.find?_natCast, hg] at he
    simp at he

/-- **Handles own their guest memory**, in every state reached by operations of both tables,
each succeeding or raising, and by guest code that leaves the handles' words alone. Every further
operation raises nothing but `HostError` and leaves every handle it is not about unchanged;
disposing or freeing a live handle never raises. -/
theorem reachable_owned {base size : Int} {g g' : Guest M} {heap : Heap M}
    (hinit : Heap.init base size g = .ok heap g') {s : HandleTables M} (hr : Reachable heap s) :
    HandlesOwn s ∧ (∀ op, Spec op s) ∧
    (∀ m v, s.classic.handles.get? m = some v →
      wp (onHandles (Handles.dispose m))
        (fun _ s' => s'.classic.handles.get? m = none ∧
          ∀ x, Covers v.owned x → Covers s'.heap.freeList x) (fun _ _ => False) s) ∧
    (∀ a c, s.cwHandles.get? a = some c →
      wp (freeCwHandle a)
        (fun _ s' => s'.cwHandles.get? a = none ∧
          ∀ x, Covers c.owned x → Covers s'.heap.freeList x) (fun _ _ => False) s) := by
  obtain ⟨hw, -⟩ := wp_of_ok (Heap.init_spec base size g) hinit
  obtain ⟨hi, hwords⟩ := hr.inv hw
  exact ⟨hi.handlesOwn hwords, call_spec hi, fun m v hg => dispose_live hi hg,
    fun a c hg => freeCw_live hi hg⟩

theorem reachable_owned_flat :
    ∃ (heap : Heap .flat) (g : Guest .flat),
      Heap.init 0x2000 256 ⟨ByteMemory.blank⟩ = .ok heap g ∧
      HandlesOwn (endState (Op.call (.resize 0x2010 20)
        (endState (Op.call (.allocCwHandle [1, 2, 3] true)
          (endState (Op.call (.new 5 false) (new heap))))))) := by
  obtain ⟨heap, g, hi⟩ : ∃ (heap : Heap .flat) (g : Guest .flat),
      Heap.init 0x2000 256 ⟨ByteMemory.blank⟩ = .ok heap g := ⟨_, _, rfl⟩
  exact ⟨heap, g, hi, (reachable_owned hi (.call _ (.call _ (.call _ .new)))).1⟩

end Cwhost.HandleTables
