import Cwhost.Memory.Heap
import Cwhost.Pef.LoaderImages

/-!
# Where the loader puts things (`load`)

Section `i` goes to `SECTION_BASE + i * SECTION_STRIDE`, whatever its size. The container and the
table of import descriptors have fixed addresses too, like everything the session has mapped before.

* `asked`: the ranges that `load` asks the guest to map, together with those of the session. They
  are collected on a guest that grants everything.
* `load_asks`: they are the sections up to the first without an image, and behind the last section
  the container and the descriptors (`places`).
* `clear_iff`: every place begins at a multiple of the stride, so two places are disjoint exactly
  if one begins behind the last stride of the other.
* `asked_apart_iff`: **the ranges are apart and below `2 ^ 32` iff the sizes fit** (`Fits`). `load`
  checks nothing: it asks for a range that is taken, and the emulator raises.
-/

namespace Cwhost.Pef

open Lib

/-! ## Ranges -/

/-- The ranges have no address in common. -/
def Clear (r s : Range) : Prop := r.1 + r.2 ≤ s.1 ∨ s.1 + s.2 ≤ r.1

theorem Clear.symm {r s : Range} (h : Clear r s) : Clear s r := Or.symm h

/-- Pairwise disjoint, and inside the address space. -/
structure Apart (l : List Range) : Prop where
  clear : l.Pairwise Clear
  below : ∀ r ∈ l, r.1 + r.2 ≤ 2 ^ 32

/-- The pages that `Guest.map` asks for. -/
def pages (addr size : Nat) : Range :=
  (Guest.alignDown addr Guest.pageSize,
    Guest.alignUp (addr + size) Guest.pageSize - Guest.alignDown addr Guest.pageSize)

/-- The mappings of a session before it loads anything. -/
def mapSession {M : ByteMemory} : EStateM Exc (Guest M) Unit := do
  Guest.init
  discard <| Heap.init Guest.heapBase (256 <<< 20)

/-- The ranges a guest was asked for. -/
def requests (g : Guest ByteMemory.granting) : List Range := ByteMemory.Paged.regions g.uc

/-- The guest of a session before it loads anything. -/
def sessionGuest : Guest ByteMemory.granting := endState (mapSession ⟨⟨[], fun _ => 0⟩⟩)

/-- The ranges that the session and `load` have asked for when `load` ends. -/
def asked (container : List UInt8) (imports : Dict Str Nat) : List Range :=
  requests (endState (load container imports sessionGuest))

/-! ## Places -/

/-- What begins at the given multiple of the stride, with its size. -/
def place (p : Nat × Nat) : Range := pages (p.1 * sectionStride) p.2

/-- The last stride a place reaches. -/
def lastStride (p : Nat × Nat) : Nat := p.1 + (p.2 - 1) / sectionStride

/-- What a session has mapped: the heap, the scratch region, the stack and the trap page. -/
def sessionPlaces : List (Nat × Nat) :=
  [(48, 256 <<< 20), (42, Guest.scratchSize), (111, Guest.stackSize), (40, Guest.trapSize)]

/-- The place of a section. -/
def placeOf (s : Section) : Nat × Nat := (16 + s.index, s.totalSize)

/-- The sections that are mapped: those with contents, up to the first without an image. -/
def mappedSections (p : PEF) : List Section → List Section
  | [] => []
  | s :: rest =>
    if s.totalSize = 0 then mappedSections p rest
    else match p.sectionImage s.index with
      | .ok _ => s :: mappedSections p rest
      | .error _ => [s]

/-- Every section with contents has an image. -/
def complete (p : PEF) (sections : List Section) : Bool :=
  sections.all fun s => decide (s.totalSize = 0) || (p.sectionImage s.index).isOk

/-- The container and the descriptors. -/
def ownPlaces (p : PEF) (length : Nat) : List (Nat × Nat) :=
  (15, max length 1) :: if p.imports.length = 0 then [] else [(41, p.imports.length * 8)]

/-- What `load` maps, in order. -/
def places (p : PEF) (length : Nat) : List (Nat × Nat) :=
  (mappedSections p p.sections).map placeOf ++
    if complete p p.sections then ownPlaces p length else []

/-- The last index whose stride a section reaches. -/
def Section.last (s : Section) : Nat := s.index + (s.totalSize - 1) / sectionStride

/-- A section that avoids the trap page, the scratch region, the heap and the stack, and ends in the
address space. -/
structure Section.Free (s : Section) : Prop where
  trap : ¬ (s.index ≤ 24 ∧ 24 ≤ s.last)
  scratch : ¬ (s.index ≤ 26 ∧ 26 ≤ s.last)
  heap : ¬ (s.index ≤ 47 ∧ 32 ≤ s.last)
  stack : ¬ (s.index ≤ 95 ∧ 95 ≤ s.last)
  below : s.last < 240

/-- **The sizes fit the layout**: the mapped sections avoid what is mapped already and the sections
behind them. If all of them have images, the container ends before the first of them and before the
trap page, and the descriptors are alone in the stride of index 25. -/
structure Fits (p : PEF) (length : Nat) : Prop where
  free : ∀ s ∈ mappedSections p p.sections, s.Free
  order : (mappedSections p p.sections).Pairwise fun s t => s.last < t.index
  container : complete p p.sections = true → length ≤ 25 * sectionStride ∧
    ∀ s ∈ mappedSections p p.sections, length ≤ (s.index + 1) * sectionStride
  descriptors : complete p p.sections = true → p.imports ≠ [] →
    p.imports.length * 8 ≤ sectionStride ∧
    ∀ s ∈ mappedSections p p.sections, ¬ (s.index ≤ 25 ∧ 25 ≤ s.last)

theorem sessionGuest_requests : requests sessionGuest = sessionPlaces.map place := by
  decide

/-! ## What `load` asks for -/

variable {p : PEF} {g : Guest ByteMemory.granting}

theorem place_section (s : Section) : pages (baseOf s.index) s.totalSize = place (placeOf s) := by
  have hbase : baseOf s.index = (16 + s.index) * sectionStride := by
    unfold baseOf sectionBase sectionStride
    omega
  rw [hbase]
  rfl

/-- Mapping is granted. -/
theorem map_asks {addr size : Nat} {perms : Str} (hsize : size ≠ 0)
    (hperms : perms ⊆ ['r', 'w', 'x']) (g : Guest ByteMemory.granting) :
    wp (Guest.map addr size perms) (fun _ g' => requests g' = pages addr size :: requests g)
      (fun _ _ => False) g := by
  simp only [Guest.map, wp_bind, wp_get, wp_ite, wp_throw]
  exact ⟨fun h => hsize h, fun _ => ⟨fun h => h hperms, fun _ => rfl⟩⟩

/-- Writing asks for nothing. -/
theorem write_asks (addr : Nat) (data : List UInt8) (g : Guest ByteMemory.granting) :
    wp (Guest.write addr data) (fun _ g' => requests g' = requests g)
      (fun _ g' => requests g' = requests g) g := by
  simp only [Guest.write, wp_bind, wp_get]
  cases hw : ByteMemory.granting.memWrite g.uc (addr % 2 ^ 32) data with
  | none => rfl
  | some uc =>
    change (if ByteMemory.Paged.covers g.uc (addr % 2 ^ 32) data.length then some _ else none) =
      some uc at hw
    split at hw
    · cases hw
      rfl
    · cases hw

/-- Writing into pages that were asked for fails only outside the address space. -/
theorem write_mapped {addr size : Nat} {data : List UInt8} (hlen : data.length ≤ size)
    (hmem : pages addr size ∈ requests g) :
    wp (Guest.write addr data) (fun _ g' => requests g' = requests g)
      (fun _ g' => requests g' = requests g ∧ 2 ^ 32 < addr + size) g := by
  by_cases hbelow : addr + size ≤ 2 ^ 32
  · have hdown := Guest.alignDown_le addr Guest.pageSize
    have hup : addr + size ≤ Guest.alignUp (addr + size) Guest.pageSize :=
      Guest.le_alignUp _ (by decide)
    have hmapped : ByteMemory.MappedRange g.uc (addr % 2 ^ 32) data.length := by
      intro x h1 h2
      rw [Nat.mod_eq_of_lt (show addr < 2 ^ 32 by omega)] at h1 h2
      refine List.any_eq_true.mpr ⟨pages addr size, hmem, decide_eq_true ⟨?_, ?_⟩⟩
      · exact Nat.le_trans hdown h1
      · show x < Guest.alignDown addr Guest.pageSize +
          (Guest.alignUp (addr + size) Guest.pageSize - Guest.alignDown addr Guest.pageSize)
        omega
    exact wp_mono (wp_and (Guest.write_written hmapped) (write_asks addr data g))
      (fun _ _ h => h.2) fun _ _ h => h.1.elim
  · exact wp_mono (write_asks addr data g) (fun _ _ h => h) fun _ _ h => ⟨h, by omega⟩

/-- Pages above the address space. -/
theorem not_apart_of_above {addr size : Nat} {l : List Range} (hmem : pages addr size ∈ l)
    (h : 2 ^ 32 < addr + size) : ¬ Apart l := by
  intro hapart
  have hbelow := hapart.below _ hmem
  have hup : addr + size ≤ Guest.alignUp (addr + size) Guest.pageSize :=
    Guest.le_alignUp _ (by decide)
  unfold pages at hbelow
  dsimp only at hbelow
  omega

/-- What was asked for before. -/
theorem Apart.of_append {l l' : List Range} (h : Apart (l ++ l')) : Apart l' where
  clear := (List.pairwise_append.mp h.clear).2.1
  below r hr := h.below r (List.mem_append_right _ hr)

/-- The ranges asked for after `g` are the given ones, in order. -/
def Asks (g g' : Guest ByteMemory.granting) (l : List Range) : Prop :=
  requests g' = l.reverse ++ requests g

/-- As far as it matters whether they are apart. -/
def AsksLike (g g' : Guest ByteMemory.granting) (l : List Range) : Prop :=
  Apart (requests g') ↔ Apart (l.reverse ++ requests g)

theorem complete_cons {s : Section} {rest : List Section} (hsize : s.totalSize ≠ 0) :
    complete p (s :: rest) = ((p.sectionImage s.index).isOk && complete p rest) := by
  rw [complete, List.all_cons, decide_eq_false hsize, Bool.false_or]
  rfl

/-- **The sections are mapped** in order, up to the first without an image. -/
theorem loadSections_asks {sections : List Section}
    (hsections : ∀ s ∈ sections, p.sections[s.index]? = some s)
    (g : Guest ByteMemory.granting) :
    wp (loadSections p sections)
      (fun _ g' => complete p sections = true ∧
        Asks g g' (((mappedSections p sections).map placeOf).map place))
      (fun _ g' => (complete p sections = true → ¬ Apart (requests g')) ∧
        AsksLike g g' (((mappedSections p sections).map placeOf).map place)) g := by
  induction sections generalizing g with
  | nil => exact ⟨rfl, rfl⟩
  | cons s rest ih =>
    obtain ⟨hs, hrest⟩ := List.forall_mem_cons.mp hsections
    rw [loadSections]
    by_cases hsize : s.totalSize = 0
    · have hcomplete : complete p (s :: rest) = complete p rest := by
        rw [complete, List.all_cons, decide_eq_true hsize, Bool.true_or, Bool.true_and]
        rfl
      rw [if_neg (not_not.mpr hsize), hcomplete, mappedSections, if_pos hsize]
      exact ih hrest g
    rw [if_pos hsize, complete_cons hsize, mappedSections, if_neg hsize]
    simp only [wp_bind]
    have hmap : wp (mapImage (baseOf s.index) s.totalSize s.executable)
        (fun _ g₁ => requests g₁ = place (placeOf s) :: requests g) (fun _ _ => False) g := by
      rw [mapImage, if_pos hsize, ← place_section]
      refine map_asks hsize ?_ g
      split <;> decide
    refine wp_mono hmap (fun _ g₁ hg₁ => ?_) fun _ _ h => h.elim
    refine wp_ofExcept (fun image himage => ?_) fun e he => ?_
    case refine_2 =>
      -- No image: nothing else is mapped.
      rw [he]
      refine ⟨fun h => absurd h Bool.false_ne_true, ?_⟩
      unfold AsksLike
      rw [hg₁]
      exact Iff.rfl
    rw [himage]
    have hmem : pages (baseOf s.index) s.totalSize ∈ requests g₁ := by
      rw [hg₁, place_section]
      exact List.mem_cons_self
    have hlen : image.length ≤ s.totalSize := (sectionImage_length hs himage).le
    refine wp_mono (write_mapped hlen hmem) (fun _ g₂ hg₂ => ?_) fun _ g₂ hg₂ => ?_
    · have hsteps : ∀ l, List.reverse l ++ requests g₂ =
          (place (placeOf s) :: l).reverse ++ requests g := by
        intro l
        rw [hg₂, hg₁, List.reverse_cons, List.append_assoc, List.singleton_append]
      refine wp_mono (ih hrest g₂) (fun _ g₃ hg₃ => ⟨hg₃.1, ?_⟩) fun _ g₃ hg₃ => ⟨hg₃.1, ?_⟩
      · exact hg₃.2.trans (hsteps _)
      · refine Iff.trans hg₃.2 ?_
        rw [hsteps]
        exact Iff.rfl
    · -- The write fails above the address space.
      obtain ⟨hsame, habove⟩ := hg₂
      refine ⟨fun _ => hsame ▸ not_apart_of_above hmem habove, iff_of_false
        (hsame ▸ not_apart_of_above hmem habove) (not_apart_of_above ?_ habove)⟩
      rw [place_section]
      exact List.mem_append_left _ (List.mem_reverse.mpr List.mem_cons_self)

/-! ## The rest of `load` -/

/-- A property of pairs of computations that their parts hand on to the whole. -/
structure Composes {M M' : ByteMemory}
    (P : {α : Type} → EStateM Exc (Guest M) α → EStateM Exc (Guest M') α → Prop) : Prop where
  pure {α : Type} (a : α) : P (Pure.pure a) (Pure.pure a)
  throw {α : Type} (e : Exc) : P (α := α) (MonadExcept.throw e) (MonadExcept.throw e)
  ofExcept {α : Type} (x : Except Exc α) : P (MonadExcept.ofExcept x) (MonadExcept.ofExcept x)
  bind {α β : Type} {x : EStateM Exc (Guest M) α} {y : EStateM Exc (Guest M') α}
    {f : α → EStateM Exc (Guest M) β} {h : α → EStateM Exc (Guest M') β} :
    P x y → (∀ a, P (f a) (h a)) → P (x >>= f) (y >>= h)
  write (addr : Nat) (data : List UInt8) : P (Guest.write addr data) (Guest.write addr data)

namespace Composes

variable {M M' : ByteMemory}
  {P : {α : Type} → EStateM Exc (Guest M) α → EStateM Exc (Guest M') α → Prop}

theorem ite {α : Type} {c : Prop} [Decidable c] {x x' : EStateM Exc (Guest M) α}
    {y y' : EStateM Exc (Guest M') α} (h : P x y) (h' : P x' y') :
    P (if c then x else x') (if c then y else y') := by
  split
  · exact h
  · exact h'

theorem bindImports (hP : Composes P) (imports : Dict Str Nat) (items : List (Import × Nat))
    (values : List Int) (descriptors : Dict Str Nat) :
    P (Pef.bindImports imports items values descriptors)
      (Pef.bindImports imports items values descriptors) := by
  induction items generalizing values descriptors with
  | nil => exact hP.pure _
  | cons item rest ih =>
    rw [Pef.bindImports, Pef.bindImports]
    refine ite (hP.bind (hP.throw _) fun _ => ?_) ?_
    · exact hP.bind (hP.write _ _) fun _ => ih _ _
    · exact hP.bind (hP.write _ _) fun _ => ih _ _

theorem relocateSections (hP : Composes P) (env : RelocEnv) (headers : List (RelocHeader × Nat)) :
    P (Pef.relocateSections p env headers) (Pef.relocateSections p env headers) := by
  induction headers with
  | nil => exact hP.pure _
  | cons header rest ih =>
    rw [Pef.relocateSections, Pef.relocateSections]
    refine ite (hP.bind (hP.throw _) fun _ => ?_) ?_
    all_goals
      refine hP.bind (hP.ofExcept _) fun target => hP.bind (hP.ofExcept _) fun stream => ?_
      dsimp only
      split
      · exact hP.bind (hP.write _ _) fun _ => ih
      · exact hP.bind (hP.throw _) fun _ => ih

theorem protectSections (hP : Composes P) (sections : List Section) :
    P (Pef.protectSections sections) (Pef.protectSections sections) := by
  induction sections with
  | nil => exact hP.pure _
  | cons s rest ih =>
    rw [Pef.protectSections, Pef.protectSections]
    refine ite (hP.bind ?_ fun _ => ih) ih
    rw [Guest.protect, Guest.protect]
    exact ite (ite (hP.throw _) (hP.pure _)) (hP.pure _)

end Composes

/-- A computation that asks for nothing. -/
def AsksNothing {α : Type} (x : EStateM Exc (Guest ByteMemory.granting) α) : Prop :=
  ∀ g, wp x (fun _ g' => requests g' = requests g) (fun _ g' => requests g' = requests g) g

theorem AsksNothing.bind {α β : Type} {x : EStateM Exc (Guest ByteMemory.granting) α}
    {f : α → EStateM Exc (Guest ByteMemory.granting) β} (hx : AsksNothing x)
    (hf : ∀ a, AsksNothing (f a)) : AsksNothing (x >>= f) := by
  intro g
  rw [wp_bind]
  refine wp_mono (hx g) (fun a g₁ h₁ => ?_) fun _ _ h => h
  exact wp_mono (hf a g₁) (fun _ _ h => h.trans h₁) fun _ _ h => h.trans h₁

/-- The second computation of a pair is the first once more. -/
theorem asksNothing_composes :
    @Composes ByteMemory.granting ByteMemory.granting fun x _ => AsksNothing x where
  pure _ _ := rfl
  throw _ _ := rfl
  ofExcept _ _ := wp_ofExcept (fun _ _ => rfl) fun _ _ => rfl
  bind := AsksNothing.bind
  write := write_asks

theorem place_image (size : Nat) : pages imageBase size = place (15, size) := by
  rw [place, show 15 * sectionStride = imageBase by decide]

theorem place_descriptors (size : Nat) : pages descriptorBase size = place (41, size) := by
  rw [place, show 41 * sectionStride = descriptorBase by decide]

theorem mapDescriptors_asks (n : Nat) (g : Guest ByteMemory.granting) :
    wp (mapDescriptors n)
      (fun _ g' => Asks g g' ((if n = 0 then [] else [(41, n * 8)]).map place))
      (fun _ _ => False) g := by
  rw [mapDescriptors]
  by_cases hn : n = 0
  · rw [if_neg (not_not.mpr hn), if_pos hn]
    exact rfl
  · rw [if_pos hn, if_neg hn]
    refine wp_mono (map_asks (Nat.mul_ne_zero hn (by decide)) (by decide) g) (fun _ g' hg' => ?_)
      fun _ _ h => h
    rw [Asks, hg', place_descriptors]
    rfl

/-- **The ranges of `load`**: where the guest refuses none of them, they are apart exactly if the
places are. -/
theorem load_asks {container : List UInt8} {imports : Dict Str Nat}
    (hinit : PEF.init container = .ok p) (hbound : missing p imports = []) :
    wp (load container imports)
      (fun _ g' => AsksLike g g' ((places p container.length).map place))
      (fun _ g' => AsksLike g g' ((places p container.length).map place)) g := by
  have hindex : ∀ s ∈ p.sections, p.sections[s.index]? = some s := fun s hs => by
    obtain ⟨i, hi⟩ := List.getElem?_of_mem hs
    rw [PEF.init_index hinit hi]
    exact hi
  rw [load, wp_bind]
  refine wp_ofExcept (fun p' hp' => ?_) fun e he => ?_
  case refine_2 =>
    rw [hinit] at he
    cases he
  rw [hinit, Except.ok.injEq] at hp'
  subst hp'
  rw [hbound]
  show wp (loadSections p p.sections >>= fun _ => _) _ _ g
  rw [wp_bind]
  refine wp_mono (loadSections_asks hindex g) (fun _ g₁ hg₁ => ?_) fun _ g₁ hg₁ => ?_
  case refine_2 =>
    obtain ⟨hover, hlike⟩ := hg₁
    rw [places]
    by_cases hcomplete : complete p p.sections = true
    · refine iff_of_false (hover hcomplete) fun happart => hover hcomplete (hlike.mpr ?_)
      rw [if_pos hcomplete, List.map_append, List.reverse_append, List.append_assoc] at happart
      exact happart.of_append
    · rw [if_neg hcomplete, List.append_nil]
      exact hlike
  obtain ⟨hcomplete, hsections⟩ := hg₁
  rw [places, if_pos hcomplete, ownPlaces, List.map_append, List.map_cons]
  rw [wp_bind]
  have hone : max container.length 1 ≠ 0 := by omega
  refine wp_mono (map_asks hone (by decide) g₁) (fun _ g₂ hg₂ => ?_) fun _ _ h => h.elim
  rw [place_image] at hg₂
  have hmem : pages imageBase (max container.length 1) ∈ requests g₂ := by
    rw [hg₂, place_image]
    exact List.mem_cons_self
  rw [wp_bind]
  refine wp_mono (write_mapped (Nat.le_max_left _ 1) hmem) (fun _ g₃ hg₃ => ?_) fun _ g₃ hg₃ => ?_
  case refine_2 =>
    -- The container does not fit below `2 ^ 32`.
    have hover := not_apart_of_above hmem hg₃.2
    refine iff_of_false (hg₃.1 ▸ hover) (not_apart_of_above ?_ hg₃.2)
    simp [place_image]
  rw [wp_bind]
  refine wp_mono (mapDescriptors_asks p.imports.length g₃) (fun _ g₄ hg₄ => ?_) fun _ _ h =>
    h.elim
  have hall : requests g₄ = (((mappedSections p p.sections).map placeOf).map place ++
      place (15, max container.length 1) ::
        (if p.imports.length = 0 then [] else [(41, p.imports.length * 8)]).map place).reverse ++
      requests g := by
    rw [hg₄, hg₃, hg₂, hsections]
    simp
  have hasks := asksNothing_composes
  refine wp_mono (AsksNothing.bind (hasks.bindImports imports _ _ _) (fun _ => ?_) g₄)
    (fun _ g₅ hg₅ => ?_) fun _ g₅ hg₅ => ?_
  · refine AsksNothing.bind (hasks.relocateSections _ _) fun _ => ?_
    refine AsksNothing.bind (hasks.protectSections _) fun _ => ?_
    exact AsksNothing.bind (hasks.ofExcept _) fun _ => hasks.pure _
  · rw [AsksLike, hg₅, hall]
  · rw [AsksLike, hg₅, hall]

/-! ## The sizes -/

/-- One of the places ends before the other begins. -/
def Beside (a b : Nat × Nat) : Prop := lastStride a < b.1 ∨ lastStride b < a.1

instance (a b : Nat × Nat) : Decidable (Beside a b) := inferInstanceAs (Decidable (_ ∨ _))

theorem place_fst (a : Nat × Nat) : (place a).1 = a.1 * sectionStride := by
  unfold place pages Guest.alignDown Guest.pageSize sectionStride
  omega

theorem place_end {a : Nat × Nat} (ha : a.2 ≠ 0) (k : Nat) :
    (place a).1 + (place a).2 ≤ k * sectionStride ↔ lastStride a < k := by
  unfold place pages lastStride Guest.alignUp Guest.alignDown Guest.pageSize sectionStride
  omega

theorem clear_iff {a b : Nat × Nat} (ha : a.2 ≠ 0) (hb : b.2 ≠ 0) :
    Clear (place a) (place b) ↔ Beside a b := by
  have hfirst := place_end ha b.1
  have hsecond := place_end hb a.1
  rw [← place_fst] at hfirst hsecond
  exact or_congr hfirst hsecond

/-- **Whether places are apart** depends on the strides they reach. -/
theorem apart_iff {l m : List (Nat × Nat)} (hpos : ∀ a ∈ l ++ m, a.2 ≠ 0) :
    Apart ((l.map place).reverse ++ m.map place) ↔
      (l ++ m).Pairwise Beside ∧ ∀ a ∈ l ++ m, lastStride a < 256 := by
  have hperm : ((l.map place).reverse ++ m.map place).Perm ((l ++ m).map place) := by
    rw [List.map_append]
    exact (List.reverse_perm _).append_right _
  have hclear : ((l.map place).reverse ++ m.map place).Pairwise Clear ↔
      (l ++ m).Pairwise Beside := by
    rw [hperm.pairwise_iff Clear.symm, List.pairwise_map]
    exact List.Pairwise.iff_of_mem fun ha hb => clear_iff (hpos _ ha) (hpos _ hb)
  have hbelow : (∀ r ∈ (l.map place).reverse ++ m.map place, r.1 + r.2 ≤ 2 ^ 32) ↔
      ∀ a ∈ l ++ m, lastStride a < 256 := by
    simp only [hperm.mem_iff, List.forall_mem_map]
    exact forall₂_congr fun a ha => place_end (hpos a ha) 256
  exact ⟨fun h => ⟨hclear.mp h.clear, hbelow.mp h.below⟩,
    fun h => ⟨hclear.mpr h.1, hbelow.mpr h.2⟩⟩

theorem mappedSections_sublist (p : PEF) (sections : List Section) :
    (mappedSections p sections).Sublist sections := by
  induction sections with
  | nil => exact .slnil
  | cons s rest ih =>
    rw [mappedSections]
    split
    · exact ih.cons s
    · split
      · exact ih.cons_cons s
      · exact (List.nil_sublist rest).cons_cons s

theorem mappedSections_size {sections : List Section} {s : Section}
    (hs : s ∈ mappedSections p sections) : s.totalSize ≠ 0 := by
  induction sections with
  | nil => cases hs
  | cons t rest ih =>
    rw [mappedSections] at hs
    split at hs
    · exact ih hs
    · rename_i hsize
      split at hs
      · rcases List.mem_cons.mp hs with rfl | hs
        · exact hsize
        · exact ih hs
      · rw [List.mem_singleton.mp hs]
        exact hsize

theorem mappedSections_head {s : Section} (hsize : s.totalSize ≠ 0) (rest : List Section) :
    s ∈ mappedSections p (s :: rest) := by
  rw [mappedSections, if_neg hsize]
  split <;> exact List.mem_cons_self

/-- Sections are numbered in order. -/
theorem sections_ordered {container : List UInt8} (hinit : PEF.init container = .ok p) :
    p.sections.Pairwise fun s t => s.index < t.index := by
  refine List.pairwise_iff_getElem.mpr fun i j hi hj hij => ?_
  rw [PEF.init_index hinit (List.getElem?_eq_getElem hi),
    PEF.init_index hinit (List.getElem?_eq_getElem hj)]
  exact hij

theorem last_placeOf (s : Section) : lastStride (placeOf s) = 16 + s.last := Nat.add_assoc _ _ _

/-- There is room for a place beside what the session has mapped. -/
def Room (a : Nat × Nat) : Prop := (∀ b ∈ sessionPlaces, Beside a b) ∧ lastStride a < 256

theorem room_iff (a : Nat × Nat) :
    Room a ↔ ((lastStride a < 48 ∨ 63 < a.1) ∧ (lastStride a < 42 ∨ 42 < a.1) ∧
      (lastStride a < 111 ∨ 111 < a.1) ∧ (lastStride a < 40 ∨ 40 < a.1)) ∧ lastStride a < 256 := by
  have hheap : lastStride (48, 256 <<< 20) = 63 := by decide
  have hscratch : lastStride (42, Guest.scratchSize) = 42 := by decide
  have hstack : lastStride (111, Guest.stackSize) = 111 := by decide
  have htrap : lastStride (40, Guest.trapSize) = 40 := by decide
  simp only [Room, sessionPlaces, List.forall_mem_cons, Beside, hheap, hscratch, hstack, htrap]
  simp

theorem room_section (s : Section) : Room (placeOf s) ↔ s.Free := by
  have hle : s.index ≤ s.last := Nat.le_add_right _ _
  have hfirst : (placeOf s).1 = 16 + s.index := rfl
  rw [room_iff, last_placeOf, hfirst]
  constructor
  · rintro ⟨⟨hheap, hscratch, hstack, htrap⟩, hbelow⟩
    constructor <;> omega
  · rintro ⟨htrap, hscratch, hheap, hstack, hbelow⟩
    omega

theorem room_container (length : Nat) :
    Room (15, max length 1) ↔ length ≤ 25 * sectionStride := by
  rw [room_iff]
  unfold lastStride sectionStride
  omega

theorem room_descriptors (n : Nat) : Room (41, n * 8) ↔ n * 8 ≤ sectionStride := by
  rw [room_iff]
  unfold lastStride sectionStride
  omega

/-- Sections in order are beside each other if the first ends in time. -/
theorem beside_sections {s t : Section} (hst : s.index < t.index) :
    Beside (placeOf s) (placeOf t) ↔ s.last < t.index := by
  have hle : t.index ≤ t.last := Nat.le_add_right _ _
  rw [Beside, last_placeOf, last_placeOf]
  unfold placeOf
  omega

theorem beside_container (s : Section) (length : Nat) :
    Beside (placeOf s) (15, max length 1) ↔ length ≤ (s.index + 1) * sectionStride := by
  rw [Beside, last_placeOf]
  unfold lastStride placeOf sectionStride
  omega

theorem beside_descriptors (s : Section) {n : Nat} (hfit : n * 8 ≤ sectionStride) :
    Beside (placeOf s) (41, n * 8) ↔ ¬ (s.index ≤ 25 ∧ 25 ≤ s.last) := by
  rw [Beside, last_placeOf]
  unfold sectionStride at hfit
  unfold lastStride placeOf sectionStride
  omega

/-- The container and the descriptors, the sections already having their places. -/
theorem ownPlaces_fit (p : PEF) (length : Nat) (sections : List Section) :
    ((ownPlaces p length).Pairwise Beside ∧
      (∀ s ∈ sections, ∀ b ∈ ownPlaces p length, Beside (placeOf s) b) ∧
      ∀ b ∈ ownPlaces p length, Room b) ↔
    (length ≤ 25 * sectionStride ∧ ∀ s ∈ sections, length ≤ (s.index + 1) * sectionStride) ∧
      (p.imports ≠ [] → p.imports.length * 8 ≤ sectionStride ∧
        ∀ s ∈ sections, ¬ (s.index ≤ 25 ∧ 25 ≤ s.last)) := by
  by_cases hnone : p.imports = []
  · simp only [ownPlaces, hnone, List.length_nil, if_true, List.forall_mem_singleton,
      List.pairwise_singleton, room_container, beside_container, true_and, ne_eq, not_true_eq_false,
      false_implies, and_true]
    exact And.comm
  have hlen : p.imports.length ≠ 0 := fun h => hnone (List.eq_nil_of_length_eq_zero h)
  have hown : ownPlaces p length = [(15, max length 1), (41, p.imports.length * 8)] := by
    rw [ownPlaces, if_neg hlen]
  have hfirst : (15, max length 1) ∈ ownPlaces p length := List.mem_cons_self
  have hsecond : (41, p.imports.length * 8) ∈ ownPlaces p length := by
    rw [hown]
    exact List.mem_cons_of_mem _ List.mem_cons_self
  constructor
  · rintro ⟨-, hsections, hroom⟩
    have hfit := (room_descriptors _).mp (hroom _ hsecond)
    refine ⟨⟨(room_container length).mp (hroom _ hfirst), fun s hs => ?_⟩,
      fun _ => ⟨hfit, fun s hs => ?_⟩⟩
    · exact (beside_container s length).mp (hsections s hs _ hfirst)
    · exact (beside_descriptors s hfit).mp (hsections s hs _ hsecond)
  · rintro ⟨⟨hshort, hcontainer⟩, himports⟩
    obtain ⟨hfit, hdescriptors⟩ := himports hnone
    -- The container ends before the trap page, so before the descriptors.
    have hbeside : Beside (15, max length 1) (41, p.imports.length * 8) := by
      unfold Beside lastStride
      unfold sectionStride at hshort ⊢
      omega
    rw [hown]
    simp only [List.pairwise_cons, List.forall_mem_cons]
    refine ⟨⟨⟨hbeside, fun b hb => absurd hb List.not_mem_nil⟩, ?_, .nil⟩, fun s hs => ⟨?_, ?_, ?_⟩,
      (room_container length).mpr hshort, (room_descriptors _).mpr hfit, ?_⟩
    · exact fun b hb => absurd hb List.not_mem_nil
    · exact (beside_container s length).mpr (hcontainer s hs)
    · exact (beside_descriptors s hfit).mpr (hdescriptors s hs)
    · exact fun b hb => absurd hb List.not_mem_nil
    · exact fun b hb => absurd hb List.not_mem_nil

/-- The places of a container are beside each other and what the session has mapped. -/
theorem places_fit {container : List UInt8} (hinit : PEF.init container = .ok p) (length : Nat) :
    ((places p length).Pairwise Beside ∧ ∀ a ∈ places p length, Room a) ↔ Fits p length := by
  have horder : ((mappedSections p p.sections).map placeOf).Pairwise Beside ↔
      (mappedSections p p.sections).Pairwise fun s t => s.last < t.index := by
    have hordered := (sections_ordered hinit).sublist (mappedSections_sublist p p.sections)
    rw [List.pairwise_map]
    constructor
    · exact fun h => (h.and hordered).imp fun hst => (beside_sections hst.2).mp hst.1
    · exact fun h => (h.and hordered).imp fun hst => (beside_sections hst.2).mpr hst.1
  have hfree : (∀ a ∈ (mappedSections p p.sections).map placeOf, Room a) ↔
      ∀ s ∈ mappedSections p p.sections, s.Free := by
    simp only [List.forall_mem_map, room_section]
  rw [places, List.pairwise_append, horder]
  by_cases hcomplete : complete p p.sections = true
  · rw [if_pos hcomplete]
    have hown := ownPlaces_fit p length (mappedSections p p.sections)
    constructor
    · rintro ⟨⟨horder, hpair, hcross⟩, hroom⟩
      obtain ⟨hsections, hownRoom⟩ := List.forall_mem_append.mp hroom
      obtain ⟨hcontainer, hdescriptors⟩ := hown.mp
        ⟨hpair, fun s hs => hcross _ (List.mem_map_of_mem hs), hownRoom⟩
      exact ⟨hfree.mp hsections, horder, fun _ => hcontainer, fun _ => hdescriptors⟩
    · intro hfits
      obtain ⟨hpair, hcross, hownRoom⟩ :=
        hown.mpr ⟨hfits.container hcomplete, hfits.descriptors hcomplete⟩
      exact ⟨⟨hfits.order, hpair, List.forall_mem_map.mpr hcross⟩,
        List.forall_mem_append.mpr ⟨hfree.mpr hfits.free, hownRoom⟩⟩
  · rw [if_neg hcomplete, List.append_nil, hfree]
    constructor
    · rintro ⟨⟨horder, -, -⟩, hfree⟩
      exact ⟨hfree, horder, fun h => absurd h hcomplete, fun h => absurd h hcomplete⟩
    · intro hfits
      exact ⟨⟨hfits.order, .nil, fun a _ b hb => absurd hb List.not_mem_nil⟩, hfits.free⟩

theorem places_size {a : Nat × Nat} (length : Nat) (ha : a ∈ places p length) : a.2 ≠ 0 := by
  rcases List.mem_append.mp ha with ha | ha
  · obtain ⟨s, hs, rfl⟩ := List.mem_map.mp ha
    exact mappedSections_size hs
  · split at ha
    · rcases List.mem_cons.mp ha with rfl | ha
      · show max length 1 ≠ 0
        omega
      · split at ha
        · cases ha
        · rename_i hn
          rw [List.mem_singleton.mp ha]
          exact Nat.mul_ne_zero hn (by decide)
    · cases ha

/-- What `load` and the session ask for is apart if the places of the container are. -/
theorem asked_apart {container : List UInt8} {imports : Dict Str Nat}
    (hinit : PEF.init container = .ok p) (hbound : missing p imports = []) :
    Apart (asked container imports) ↔ (places p container.length).Pairwise Beside ∧
      ∀ a ∈ places p container.length, Room a := by
  have hasked : Apart (asked container imports) ↔
      Apart (((places p container.length).map place).reverse ++ sessionPlaces.map place) := by
    rw [← sessionGuest_requests]
    exact wp_endState (load_asks hinit hbound)
  have hsession : sessionPlaces.Pairwise Beside ∧ ∀ b ∈ sessionPlaces, lastStride b < 256 := by
    decide
  have hpos : ∀ a ∈ places p container.length ++ sessionPlaces, a.2 ≠ 0 := by
    refine List.forall_mem_append.mpr ⟨fun a ha => places_size container.length ha, ?_⟩
    decide
  rw [hasked, apart_iff hpos]
  constructor
  · rintro ⟨hpair, hbelow⟩
    obtain ⟨hplaces, -, hcross⟩ := List.pairwise_append.mp hpair
    exact ⟨hplaces, fun a ha => ⟨hcross a ha, hbelow a (List.mem_append_left _ ha)⟩⟩
  · rintro ⟨hplaces, hroom⟩
    refine ⟨List.pairwise_append.mpr ⟨hplaces, hsession.1, fun a ha => (hroom a ha).1⟩, ?_⟩
    exact List.forall_mem_append.mpr ⟨fun a ha => (hroom a ha).2, hsession.2⟩

/-- **The ranges of `load` and of the session are apart exactly if the sizes fit.** -/
theorem asked_apart_iff {container : List UInt8} {imports : Dict Str Nat}
    (hinit : PEF.init container = .ok p) (hbound : missing p imports = []) :
    Apart (asked container imports) ↔ Fits p container.length :=
  (asked_apart hinit hbound).trans (places_fit hinit container.length)

theorem missing_of_nil (himports : p.imports = []) (imports : Dict Str Nat) :
    missing p imports = [] := by
  simp [missing, himports]

theorem asked_apart_iff_twoHeaders :
    Apart (asked twoHeaders .empty) ↔ Fits twoHeadersPef twoHeaders.length :=
  asked_apart_iff twoHeaders_init (missing_of_nil rfl .empty)

/-- A container with one section of data, as large as the addresses up to the trap page and a byte
more. -/
def oversized : List UInt8 :=
  PEF.joy ++ PEF.peff ++ List.replicate 24 0 ++ [0, 1] ++ List.replicate 6 0 ++
    (List.replicate 8 0 ++ [0x18, 0, 0, 1] ++ [0, 0, 0, 0] ++ [0, 0, 0, 0] ++ [0, 0, 0, 68] ++
      [1, 0, 0, 0])

/-- What `PEF.init` makes of the container. -/
def oversizedPef : PEF where
  data := oversized
  sections := [⟨0, .unpackedData, 0, 0x18000001, 0, 0, 68, 1⟩]
  loader := []
  loaderHeader := none
  libraries := []
  imports := []
  relocHeaders := []

/-- The guest of a session, on a memory that refuses what is mapped already. -/
def pagedSession : Guest ByteMemory.paged where
  uc := (⟨sessionPlaces.map place, fun _ => 0⟩ : ByteMemory.Paged)

set_option maxRecDepth 4000 in
theorem oversized_init : PEF.init oversized = .ok oversizedPef := rfl

/-- **A section over the trap page**: `load` asks for its range, and the emulator refuses it. -/
theorem oversized_refused :
    PEF.init oversized = .ok oversizedPef ∧ missing oversizedPef .empty = [] ∧
      ¬ Apart (asked oversized .empty) ∧
      mapSession ⟨(⟨[], fun _ => 0⟩ : ByteMemory.Paged)⟩ = .ok () pagedSession ∧
      load oversized .empty pagedSession = .error .ucError pagedSession := by
  have hbound : missing oversizedPef .empty = [] := missing_of_nil rfl .empty
  refine ⟨oversized_init, hbound, fun h => ?_, rfl, ?_⟩
  · have hfits := (places_fit oversized_init _).mp ((asked_apart oversized_init hbound).mp h)
    have hfree := hfits.free _ (mappedSections_head (by decide) [])
    exact hfree.trap (by decide)
  · have hinit : (MonadExcept.ofExcept (PEF.init oversized) :
        EStateM Exc (Guest ByteMemory.paged) PEF) pagedSession = .ok oversizedPef pagedSession := by
      rw [oversized_init]
      rfl
    rw [load, bind_of_ok hinit, hbound]
    rfl

end Cwhost.Pef
