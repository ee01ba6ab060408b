import Cwhost.Lib.MemoryRuns
import Cwhost.Pef.Loader
import Cwhost.Pef.RelocAdditive
import Cwhost.Pef.SectionImage

/-!
# What is in memory after `load`

Every relocation header starts from the section's image and overwrites the section.

* `load_writes`: what `load` leaves in the memory of the sections is the last of the images and
  relocated images it has written there.
* `apply_injective`: a relocation stream gives different images different results.
* `load_takesEffect_iff`: so every header takes effect exactly when the headers of a section before
  its last leave its image as it is, unless sections share addresses.
-/

namespace Cwhost.Pef

open Lib

/-! ## What the headers should do -/

/-- The section deltas of `load`. -/
def sectionDeltas (p : PEF) : List Int :=
  p.sections.map fun s => (baseOf s.index : Int) - s.defaultAddress

/-- The arguments `load` relocates with. -/
def loadValues (p : PEF) : Values where
  env :=
    { sectionDeltas := sectionDeltas p
      imports := (List.range p.imports.length).map fun i => ((descriptorBase + i * 8 : Nat) : Int) }
  initialC := (sectionDeltas p).getD 0 0
  initialD := (sectionDeltas p).getD 1 0

/-- The stream of one header, applied to an image. -/
def applyHeader (p : PEF) (image : List UInt8) (header : Nat) : Option (List UInt8) :=
  (p.relocStream header).toOption.bind ((loadValues p).apply image)

/-- The numbers of those headers that name a section. -/
def naming (headers : List (RelocHeader × Nat)) (index : Nat) : List Nat :=
  (headers.filter fun e => decide (e.1.sectionIndex = index)).map Prod.snd

/-- The headers that name a section, in header order. -/
def headersOf (p : PEF) (index : Nat) : List Nat := naming p.relocHeaders.zipIdx index

/-- An image with the streams of some headers applied to it one after the other. -/
def applyHeaders (p : PEF) (image : List UInt8) (headers : List Nat) : Option (List UInt8) :=
  headers.foldlM (applyHeader p) image

/-- Where the bytes of a section are, as `Guest.write` takes the address. -/
def addressOf (index : Nat) : Nat := baseOf index % 2 ^ 32

/-- **Every header takes effect**: the memory of each section is its image with the streams of all
headers that name it applied to it. -/
def TakesEffect {M : ByteMemory} (p : PEF) (uc : M.State) : Prop :=
  ∀ i s image, p.sections[i]? = some s → p.sectionImage i = .ok image →
    ∃ result, applyHeaders p image (headersOf p i) = some result ∧
      ByteMemory.bytes uc (addressOf i) s.totalSize = result

/-- The headers that name a section, but for the last of them, leave its image as it is. -/
def EarlierIdle (p : PEF) : Prop :=
  ∀ i image, p.sectionImage i = .ok image →
    applyHeaders p image (headersOf p i).dropLast = some image

/-! ## What is written -/

/-- The images `load` writes, with the sections they are for. -/
def imageContents (p : PEF) (sections : List Section) : List (Nat × List UInt8) :=
  sections.filterMap fun s =>
    if s.totalSize = 0 then none
    else (p.sectionImage s.index).toOption.map fun image => (s.index, image)

/-- The relocated images: each of them is the section's image, relocated by one header. -/
def headerContents (p : PEF) (headers : List (RelocHeader × Nat)) : List (Nat × List UInt8) :=
  headers.filterMap fun e =>
    ((p.sectionImage e.1.sectionIndex).toOption.bind fun image => applyHeader p image e.2).map
      fun result => (e.1.sectionIndex, result)

/-- All that is written into sections, in order. -/
def contents (p : PEF) : List (Nat × List UInt8) :=
  imageContents p p.sections ++ headerContents p p.relocHeaders.zipIdx

/-- Contents of a section at its address. -/
def placed (c : Nat × List UInt8) : Nat × List UInt8 := (addressOf c.1, c.2)

/-- The last of the contents that covers an address of a section agrees with all its headers. -/
def LastContents (p : PEF) : Prop :=
  ∀ i s image result k, p.sections[i]? = some s → p.sectionImage i = .ok image →
    applyHeaders p image (headersOf p i) = some result → k < s.totalSize →
    lastByte ((contents p).map placed) (addressOf i + k) = result[k]?

/-- No two sections with contents share an address. -/
def Separate (p : PEF) : Prop :=
  ∀ i j s t, p.sections[i]? = some s → p.sections[j]? = some t → i ≠ j →
    addressOf i + s.totalSize ≤ addressOf j ∨ addressOf j + t.totalSize ≤ addressOf i ∨
      s.totalSize = 0 ∨ t.totalSize = 0

variable {M : ByteMemory} {p : PEF} {g : Guest M}

/-! ## The parts of `load` -/

theorem write_does (addr : Nat) (data : List UInt8) (g : Guest M) :
    wp (Guest.write addr data)
      (fun _ g' => ByteMemory.Does M g.uc [(addr % 2 ^ 32, data)] g'.uc) (fun _ _ => True) g := by
  simp only [Guest.write, wp_bind, wp_get]
  cases hw : M.memWrite g.uc (addr % 2 ^ 32) data with
  | none => trivial
  | some uc => exact .write hw (.refl uc)

/-- The map and the write of one section. -/
theorem mapImage_does (addr size : Nat) (executable : Bool) (g : Guest M) :
    wp (mapImage addr size executable) (fun _ g' => ByteMemory.Does M g.uc [] g'.uc)
      (fun _ _ => True) g := by
  unfold mapImage
  split
  · exact wp_mono (Guest.map_does addr size _ g) (fun _ g' hm => .map hm (.refl g'.uc))
      fun _ _ h => h
  · exact .refl g.uc

/-- **The sections are loaded** with their images. -/
theorem loadSections_does (sections : List Section) (g : Guest M) :
    wp (loadSections p sections)
      (fun _ g' => ByteMemory.Does M g.uc ((imageContents p sections).map placed) g'.uc)
      (fun _ _ => True) g := by
  induction sections generalizing g with
  | nil => exact .refl g.uc
  | cons s rest ih =>
    rw [loadSections]
    by_cases hsize : s.totalSize = 0
    · have hnone : imageContents p (s :: rest) = imageContents p rest :=
        List.filterMap_cons_none (if_pos hsize)
      rw [if_neg (not_not.mpr hsize), hnone]
      exact ih g
    · rw [if_pos hsize]
      simp only [wp_bind]
      refine wp_mono (mapImage_does _ _ _ g) (fun _ g₁ hmap => ?_) fun _ _ h => h
      refine wp_ofExcept (fun image himage => ?_) fun _ _ => trivial
      refine wp_mono (write_does _ image g₁) (fun _ g₂ hwrite => ?_) fun _ _ h => h
      refine wp_mono (ih g₂) (fun _ g₃ hrest => ?_) fun _ _ h => h
      have hsome : imageContents p (s :: rest) = (s.index, image) :: imageContents p rest := by
        refine List.filterMap_cons_some ?_
        rw [if_neg hsize, himage]
        rfl
      rw [hsome]
      exact (hmap.trans hwrite).trans hrest

/-- What relocating with some headers has done: every one of them names a section and applies. -/
def HeadersApply (p : PEF) (headers : List (RelocHeader × Nat)) : Prop :=
  ∀ e ∈ headers, ∃ image result, p.sectionImage e.1.sectionIndex = .ok image ∧
    applyHeader p image e.2 = some result

/-- **The sections are relocated** header by header. -/
theorem relocateSections_does (headers : List (RelocHeader × Nat)) (g : Guest M) :
    wp (relocateSections p (loadValues p).env headers)
      (fun _ g' => HeadersApply p headers ∧
        ByteMemory.Does M g.uc ((headerContents p headers).map placed) g'.uc)
      (fun _ _ => True) g := by
  induction headers generalizing g with
  | nil => exact ⟨fun e he => absurd he List.not_mem_nil, .refl g.uc⟩
  | cons e rest ih =>
    obtain ⟨header, index⟩ := e
    simp only [relocateSections, wp_bind, wp_ite, wp_throw]
    refine ⟨fun _ => trivial, fun _ => ?_⟩
    refine wp_ofExcept (fun image himage => ?_) fun _ _ => trivial
    refine wp_ofExcept (fun stream hstream => ?_) fun _ _ => trivial
    cases happly : applyRelocations image stream (loadValues p).env
        ((loadValues p).env.sectionDeltas.getD 0 0) ((loadValues p).env.sectionDeltas.getD 1 0) with
    | error e s => trivial
    | ok a s =>
      have hresult : applyHeader p image index = some s.section_ := by
        rw [applyHeader, hstream]
        show (okState (applyRelocations image stream (loadValues p).env _ _)).map _ = _
        rw [show (loadValues p).initialC = (loadValues p).env.sectionDeltas.getD 0 0 from rfl,
          show (loadValues p).initialD = (loadValues p).env.sectionDeltas.getD 1 0 from rfl, happly]
        rfl
      show wp (Guest.write _ s.section_ >>= fun _ => relocateSections p _ rest) _ _ _
      rw [wp_bind]
      refine wp_mono (write_does _ s.section_ g) (fun _ g₁ hwrite => ?_) fun _ _ h => h
      refine wp_mono (ih g₁) (fun _ g₂ hrest => ?_) fun _ _ h => h
      have hsome : headerContents p ((header, index) :: rest) =
          (header.sectionIndex, s.section_) :: headerContents p rest := by
        refine List.filterMap_cons_some ?_
        dsimp only
        rw [himage]
        show Option.map _ (applyHeader p image index) = _
        rw [hresult]
        rfl
      rw [hsome]
      refine ⟨fun e he => ?_, hwrite.trans hrest.2⟩
      rcases List.mem_cons.mp he with rfl | he
      · exact ⟨image, s.section_, himage, hresult⟩
      · exact hrest.1 e he

/-- The descriptor of an import. -/
theorem descriptor_lt {index n : Nat} (hn : descriptorBase + n * 8 ≤ 2 ^ 32) (hi : index < n) :
    (descriptorBase + index * 8) % 2 ^ 32 = descriptorBase + index * 8 := by
  refine Nat.mod_eq_of_lt ?_
  omega

/-- **The imports are bound** in the descriptor table. -/
theorem bindImports_does (imports : Dict Str Nat) {n : Nat} (hn : descriptorBase + n * 8 ≤ 2 ^ 32)
    (items : List (Import × Nat)) (hitems : ∀ e ∈ items, e.2 < n) (values : List Int)
    (descriptors : Dict Str Nat) (g : Guest M) :
    wp (bindImports imports items values descriptors)
      (fun r g' => r.1 = values ++ items.map (fun e => ((descriptorBase + e.2 * 8 : Nat) : Int)) ∧
        ∃ ws, ByteMemory.Does M g.uc ws g'.uc ∧
          ∀ w ∈ ws, descriptorBase ≤ w.1 ∧ w.1 + w.2.length ≤ descriptorBase + n * 8)
      (fun _ _ => True) g := by
  induction items generalizing values descriptors g with
  | nil => exact ⟨(List.append_nil _).symm, [], .refl g.uc, fun w hw => absurd hw List.not_mem_nil⟩
  | cons e rest ih =>
    obtain ⟨item, index⟩ := e
    have hlt : index < n := hitems _ List.mem_cons_self
    simp only [bindImports, wp_bind, wp_ite, wp_throw]
    refine ⟨fun _ => trivial, fun _ => ?_⟩
    refine wp_mono (write_does _ _ g) (fun _ g₁ hwrite => ?_) fun _ _ h => h
    refine wp_mono (ih (fun e he => hitems e (List.mem_cons_of_mem _ he)) _ _ g₁)
      (fun r g₂ hrest => ?_) fun _ _ h => h
    obtain ⟨hvalues, ws, hdoes, hin⟩ := hrest
    refine ⟨by rw [hvalues, List.append_assoc, List.map_cons]; rfl, _, hwrite.trans hdoes, ?_⟩
    intro w hw
    rcases List.mem_cons.mp hw with rfl | hw
    · rw [descriptor_lt hn hlt]
      simp only [List.length_append, toBE_length]
      omega
    · exact hin w hw

/-- Protecting sections does not touch their bytes. -/
theorem protectSections_eq (sections : List Section) (g : Guest M) :
    wp (protectSections sections) (fun _ g' => g' = g) (fun _ _ => True) g := by
  induction sections generalizing g with
  | nil => rfl
  | cons s rest ih =>
    rw [protectSections]
    split
    · rw [wp_bind, Guest.protect]
      split
      · rw [wp_ite]
        exact ⟨fun _ => trivial, fun _ => ih g⟩
      · exact ih g
    · exact ih g

/-! ## The whole of `load` -/

/-- Writing inside what `Guest.map` has just mapped. -/
theorem keeps_of_map (hM : M.Strict) {addr size : Nat} {s s₁ s' : M.State}
    {ws : List (Nat × List UInt8)}
    (hm : M.memMap s (Guest.alignDown addr Guest.pageSize)
      (Guest.alignUp (addr + size) Guest.pageSize - Guest.alignDown addr Guest.pageSize) = some s₁)
    (h : ByteMemory.Does M s₁ ws s')
    (hin : ∀ w ∈ ws, addr ≤ w.1 ∧ w.1 + w.2.length ≤ addr + size) :
    ByteMemory.Keeps M s s' := by
  have hdown := Guest.alignDown_le addr Guest.pageSize
  have hup : addr + size ≤ Guest.alignUp (addr + size) Guest.pageSize :=
    Guest.le_alignUp _ (by decide)
  refine h.keeps hM hm fun w hw => ?_
  have := hin w hw
  omega

/-- The descriptor table ends before the scratch region, which is mapped already. -/
theorem descriptors_below (hM : M.Strict) {s s₁ : M.State} {n : Nat}
    (hscratch : ByteMemory.MappedRange s Guest.scratchBase Guest.scratchSize)
    (hm : M.memMap s (Guest.alignDown descriptorBase Guest.pageSize)
      (Guest.alignUp (descriptorBase + n) Guest.pageSize -
        Guest.alignDown descriptorBase Guest.pageSize) = some s₁) :
    descriptorBase + n ≤ Guest.scratchBase := by
  have hdown := Guest.alignDown_le descriptorBase Guest.pageSize
  have hup : descriptorBase + n ≤ Guest.alignUp (descriptorBase + n) Guest.pageSize :=
    Guest.le_alignUp _ (by decide)
  have hlt : descriptorBase < Guest.scratchBase := by decide
  by_contra hover
  refine hM.map_fresh hm Guest.scratchBase (by omega) (by omega) ?_
  exact hscratch _ (Nat.le_refl _) (by decide)

/-- The numbers of `zipIdx` are those of `range`. -/
theorem map_zipIdx {α β : Type} (l : List α) (f : Nat → β) :
    l.zipIdx.map (fun e => f e.2) = (List.range l.length).map f := by
  have hcomp : (fun e : α × Nat => f e.2) = f ∘ Prod.snd := rfl
  rw [hcomp, ← List.map_map, List.zipIdx_map_snd, List.range_eq_range']

/-- **The descriptors** of all imports, and what is in memory besides them. -/
theorem bindDescriptors_keeps (hM : M.Strict) (p : PEF) (imports : Dict Str Nat)
    (hscratch : ByteMemory.MappedRange g.uc Guest.scratchBase Guest.scratchSize) :
    wp (mapDescriptors p.imports.length >>= fun _ =>
        bindImports imports p.imports.zipIdx [] .empty)
      (fun r g' => r.1 = (loadValues p).env.imports ∧ ByteMemory.Keeps M g.uc g'.uc)
      (fun _ _ => True) g := by
  have hvalues : [] ++ p.imports.zipIdx.map (fun e => ((descriptorBase + e.2 * 8 : Nat) : Int)) =
      (loadValues p).env.imports := by
    rw [List.nil_append]
    exact map_zipIdx p.imports fun i => ((descriptorBase + i * 8 : Nat) : Int)
  rw [wp_bind, mapDescriptors]
  split
  · refine wp_mono (Guest.map_does _ _ _ g) (fun _ g₁ hmap => ?_) fun _ _ h => h
    have hbelow := descriptors_below hM hscratch hmap
    have hfit : descriptorBase + p.imports.length * 8 ≤ 2 ^ 32 :=
      Nat.le_trans hbelow (by decide)
    have hitems : ∀ e ∈ p.imports.zipIdx, e.2 < p.imports.length := fun e he => by
      have := (List.mem_zipIdx he).2.1
      omega
    refine wp_mono (bindImports_does imports hfit _ hitems [] .empty g₁) (fun r g₂ h => ?_)
      fun _ _ h => h
    obtain ⟨hr, ws, hdoes, hin⟩ := h
    exact ⟨hr.trans hvalues, keeps_of_map hM hmap hdoes hin⟩
  · rename_i hnone
    have hnil : p.imports = [] := List.eq_nil_of_length_eq_zero (not_not.mp hnone)
    rw [hnil] at hvalues ⊢
    exact ⟨hvalues, .refl g.uc⟩

/-- The images stay in memory where the relocated ones do not cover them. -/
theorem contents_byte (hM : M.Strict) {s₀ s₁ s₂ s₃ : M.State}
    (himages : ByteMemory.Does M s₀ ((imageContents p p.sections).map placed) s₁)
    (hkeeps : ByteMemory.Keeps M s₁ s₂)
    (hreloc : ByteMemory.Does M s₂ ((headerContents p p.relocHeaders.zipIdx).map placed) s₃)
    {x : Nat} {b : UInt8} (hb : lastByte ((contents p).map placed) x = some b) :
    M.byte s₃ x = b := by
  rw [contents, List.map_append, lastByte_append, Option.or_eq_some_iff] at hb
  rcases hb with hb | ⟨hnone, hb⟩
  · exact ((hreloc.byte hM).1 b hb).2
  · obtain ⟨hmapped, hbyte⟩ := (himages.byte hM).1 b hb
    rw [(hreloc.byte hM).2 (hkeeps.mapped x hmapped) hnone, hkeeps.byte x hmapped, hbyte]

/-- **What `load` leaves in the memory of the sections.** -/
theorem load_writes (hM : M.Strict) {container : List UInt8} {imports : Dict Str Nat}
    {f : Fragment} {g' : Guest M} (hinit : PEF.init container = .ok p)
    (hscratch : ByteMemory.MappedRange g.uc Guest.scratchBase Guest.scratchSize)
    (hload : load container imports g = .ok f g') :
    HeadersApply p p.relocHeaders.zipIdx ∧
      ∀ x b, lastByte ((contents p).map placed) x = some b → M.byte g'.uc x = b := by
  suffices h : wp (load container imports) (fun _ g' => HeadersApply p p.relocHeaders.zipIdx ∧
      ∀ x b, lastByte ((contents p).map placed) x = some b → M.byte g'.uc x = b)
      (fun _ _ => True) g by
    have h := wp_of_ok h hload
    exact h
  simp only [load, wp_bind]
  refine wp_ofExcept (fun p' hp' => ?_) fun _ _ => trivial
  rw [hinit, Except.ok.injEq] at hp'
  subst hp'
  split
  · trivial
  simp only [wp_bind]
  refine wp_mono (loadSections_does p.sections g) (fun _ g₁ hsections => ?_) fun _ _ h => h
  refine wp_mono (Guest.map_does _ _ _ g₁) (fun _ g₂ hmap => ?_) fun _ _ h => h
  refine wp_mono (write_does _ _ g₂) (fun _ g₃ hwrite => ?_) fun _ _ h => h
  have hkeeps₁ : ByteMemory.Keeps M g₁.uc g₃.uc := by
    refine keeps_of_map hM hmap hwrite fun w hw => ?_
    rw [List.mem_singleton.mp hw]
    exact ⟨Nat.le_refl _, Nat.add_le_add_left (Nat.le_max_left _ _) _⟩
  have hscratch₃ : ByteMemory.MappedRange g₃.uc Guest.scratchBase Guest.scratchSize :=
    fun x h1 h2 => hkeeps₁.mapped x (hsections.mapped (hscratch x h1 h2))
  have hdescriptors := (wp_bind _ _).mp (bindDescriptors_keeps hM p imports hscratch₃)
  refine wp_mono hdescriptors (fun _ g₄ h => ?_) fun _ _ h => h
  refine wp_mono h (fun r g₅ hbind => ?_) fun _ _ h => h
  rw [hbind.1]
  refine wp_mono (relocateSections_does p.relocHeaders.zipIdx g₅) (fun _ g₆ hreloc => ?_)
    fun _ _ h => h
  refine wp_mono (protectSections_eq p.sections g₆) (fun _ g₇ hprotect => ?_) fun _ _ h => h
  subst hprotect
  refine wp_ofExcept (fun exports _ => ?_) fun _ _ => trivial
  exact ⟨hreloc.1, fun x b hb => contents_byte hM hsections (hkeeps₁.trans hbind.2) hreloc.2 hb⟩

/-! ## Relocating with one header or with several -/

/-- An image has the size of its section. -/
theorem sectionImage_length {i : Nat} {s : Section} {image : List UInt8}
    (hs : p.sections[i]? = some s) (h : p.sectionImage i = .ok image) :
    image.length = s.totalSize := by
  simp only [PEF.sectionImage, hs] at h
  split at h
  all_goals
    obtain ⟨own, -, h⟩ := bind_eq_ok h
    cases h
    exact fit_length _ _

/-- What relocating does depends on the size of the image only, and keeps it. -/
theorem apply_some_iff (v : Values) {image image' : List UInt8} (stream : List UInt8)
    (hlen : image.length = image'.length) {result : List UInt8}
    (h : v.apply image stream = some result) :
    result.length = image.length ∧ ∃ result', v.apply image' stream = some result' := by
  obtain ⟨heq, hin⟩ := apply_eq v image stream
  rw [heq] at h
  obtain ⟨sites, hsites, rfl⟩ := Option.map_eq_some_iff.mp h
  refine ⟨patchAll_length (hin sites hsites) v.eval, ?_⟩
  have hextent : v.extent image' = v.extent image := by
    unfold Values.extent
    rw [hlen]
  rw [(apply_eq v image' stream).1, hextent, hsites]
  exact ⟨_, rfl⟩

/-- **Different images have different results.** -/
theorem apply_injective (v : Values) {image image' stream result : List UInt8}
    (hlen : image.length = image'.length) (h : v.apply image stream = some result)
    (h' : v.apply image' stream = some result) : image = image' := by
  obtain ⟨heq, hin⟩ := apply_eq v image stream
  obtain ⟨heq', -⟩ := apply_eq v image' stream
  have hextent : v.extent image' = v.extent image := by
    unfold Values.extent
    rw [hlen]
  rw [heq] at h
  rw [heq', hextent] at h'
  obtain ⟨sites, hsites, rfl⟩ := Option.map_eq_some_iff.mp h
  rw [hsites, Option.map_some, Option.some.injEq] at h'
  exact patchAll_injective (hin sites hsites) hlen h'.symm

section Headers

variable {image result : List UInt8}

theorem applyHeader_length {h : Nat} (hr : applyHeader p image h = some result) :
    result.length = image.length := by
  obtain ⟨stream, -, hr⟩ := Option.bind_eq_some_iff.mp hr
  exact (apply_some_iff _ stream rfl hr).1

/-- A header that applies to an image applies to every image of that size. -/
theorem applyHeader_some {h : Nat} {image' : List UInt8} (hlen : image.length = image'.length)
    (hr : applyHeader p image h = some result) :
    ∃ result', applyHeader p image' h = some result' := by
  obtain ⟨stream, hstream, hr⟩ := Option.bind_eq_some_iff.mp hr
  obtain ⟨result', hr'⟩ := (apply_some_iff _ stream hlen hr).2
  exact ⟨result', Option.bind_eq_some_iff.mpr ⟨stream, hstream, hr'⟩⟩

theorem applyHeader_injective {h : Nat} {image' : List UInt8} (hlen : image.length = image'.length)
    (hr : applyHeader p image h = some result) (hr' : applyHeader p image' h = some result) :
    image = image' := by
  obtain ⟨stream, hstream, hr⟩ := Option.bind_eq_some_iff.mp hr
  obtain ⟨stream', hstream', hr'⟩ := Option.bind_eq_some_iff.mp hr'
  rw [hstream, Option.some.injEq] at hstream'
  subst hstream'
  exact apply_injective _ hlen hr hr'

theorem applyHeaders_length {hs : List Nat} (hr : applyHeaders p image hs = some result) :
    result.length = image.length := by
  induction hs generalizing image with
  | nil =>
    cases hr
    rfl
  | cons h hs ih =>
    rw [applyHeaders, List.foldlM_cons] at hr
    obtain ⟨image₁, h₁, hr⟩ := Option.bind_eq_some_iff.mp hr
    rw [ih hr, applyHeader_length h₁]

/-- Headers that apply to an image apply to it one after the other. -/
theorem applyHeaders_some {hs : List Nat}
    (hall : ∀ h ∈ hs, ∃ r, applyHeader p image h = some r) {image' : List UInt8}
    (hlen : image.length = image'.length) : ∃ r, applyHeaders p image' hs = some r := by
  induction hs generalizing image' with
  | nil => exact ⟨image', rfl⟩
  | cons h hs ih =>
    obtain ⟨r, hr⟩ := hall h List.mem_cons_self
    obtain ⟨image₁, h₁⟩ := applyHeader_some hlen hr
    obtain ⟨r', hr'⟩ := ih (fun k hk => hall k (List.mem_cons_of_mem _ hk))
      (hlen.trans (applyHeader_length h₁).symm)
    refine ⟨r', ?_⟩
    rw [applyHeaders, List.foldlM_cons, h₁]
    exact hr'

/-- What is written last into a section on its own: its image, or its image relocated by the last
header that names it. -/
def lastContents (p : PEF) (image : List UInt8) (headers : List Nat) : Option (List UInt8) :=
  match headers.getLast? with
  | none => some image
  | some h => applyHeader p image h

/-- **The last header alone does what all headers do** exactly when the others leave the image as it
is. -/
theorem lastContents_iff {hs : List Nat} (hall : ∀ h ∈ hs, ∃ r, applyHeader p image h = some r) :
    lastContents p image hs = applyHeaders p image hs ↔
      applyHeaders p image hs.dropLast = some image := by
  rcases List.eq_nil_or_concat hs with rfl | ⟨init, h, rfl⟩
  · exact ⟨fun _ => rfl, fun _ => rfl⟩
  · rw [List.concat_eq_append] at *
    have hinit : ∀ k ∈ init, ∃ r, applyHeader p image k = some r := fun k hk =>
      hall k (List.mem_append_left _ hk)
    obtain ⟨image₁, h₁⟩ := applyHeaders_some hinit rfl
    obtain ⟨r, hr⟩ := hall h (List.mem_append_right _ List.mem_cons_self)
    have hlast : applyHeaders p image (init ++ [h]) = applyHeader p image₁ h := by
      rw [applyHeaders, List.foldlM_append, show init.foldlM _ image = some image₁ from h₁]
      show ((applyHeader p image₁ h).bind fun r => some r) = _
      cases applyHeader p image₁ h <;> rfl
    rw [lastContents, List.getLast?_concat, hlast, List.dropLast_concat, h₁, Option.some.injEq]
    constructor
    · intro (heq : applyHeader p image h = applyHeader p image₁ h)
      rw [hr] at heq
      exact applyHeader_injective (applyHeaders_length h₁) heq.symm hr
    · rintro rfl
      rfl

end Headers

/-! ## When every header takes effect -/

/-- All headers that name a section apply to its image. -/
theorem HeadersApply.of {headers : List (RelocHeader × Nat)} {i : Nat} {image : List UInt8}
    (h : HeadersApply p headers) (himage : p.sectionImage i = .ok image) :
    ∀ k ∈ naming headers i, ∃ r, applyHeader p image k = some r := by
  intro k hk
  obtain ⟨e, he, rfl⟩ := List.mem_map.mp hk
  obtain ⟨he, hei⟩ := List.mem_filter.mp he
  obtain ⟨image', r, himage', hr⟩ := h e he
  rw [of_decide_eq_true hei] at himage'
  rw [himage, Except.ok.injEq] at himage'
  subst himage'
  exact ⟨r, hr⟩

/-- A section of the table. -/
structure SectionAt (p : PEF) (i : Nat) (s : Section) (image : List UInt8) : Prop where
  get : p.sections[i]? = some s
  image : p.sectionImage i = .ok image

section Contents

variable {i k : Nat} {s : Section} {image : List UInt8}

theorem SectionAt.length (h : SectionAt p i s image) : image.length = s.totalSize :=
  sectionImage_length h.get h.image

/-- Contents of another section do not cover the addresses of this one. -/
theorem Separate.byteOf_eq_none (hsep : Separate p) (h : SectionAt p i s image)
    (hk : k < s.totalSize) {j : Nat} {t : Section} {data : List UInt8}
    (ht : p.sections[j]? = some t) (hj : j ≠ i) (hlen : data.length = t.totalSize) :
    byteOf (placed (j, data)) (addressOf i + k) = none := by
  rw [byteOf_eq_none_iff]
  have := hsep i j s t h.get ht (Ne.symm hj)
  show ¬ (addressOf j ≤ addressOf i + k ∧ addressOf i + k < addressOf j + data.length)
  omega

/-- Contents of the section itself give their byte. -/
theorem byteOf_placed (i k : Nat) (data : List UInt8) :
    byteOf (placed (i, data)) (addressOf i + k) = data[k]? := by
  show (if addressOf i ≤ addressOf i + k then data[addressOf i + k - addressOf i]? else none) = _
  rw [if_pos (Nat.le_add_right _ _), Nat.add_sub_cancel_left]

/-- The byte that the images leave. -/
theorem lastByte_images (hsep : Separate p) (h : SectionAt p i s image) (hk : k < s.totalSize)
    {sections : List Section} (hin : ∀ t ∈ sections, p.sections[t.index]? = some t) :
    lastByte ((imageContents p sections).map placed) (addressOf i + k) =
      if i ∈ sections.map Section.index then image[k]? else none := by
  induction sections with
  | nil => rfl
  | cons t rest ih =>
    have ht := hin t List.mem_cons_self
    have ih := ih fun t' ht' => hin t' (List.mem_cons_of_mem _ ht')
    by_cases hti : t.index = i
    · have hts : t = s := by
        rw [hti, h.get, Option.some.injEq] at ht
        exact ht.symm
      have hcons : imageContents p (t :: rest) = (i, image) :: imageContents p rest := by
        refine List.filterMap_cons_some ?_
        rw [if_neg (by rw [hts]; omega), hti, h.image]
        rfl
      have hmem : i ∈ (t :: rest).map Section.index := List.mem_cons.mpr (Or.inl hti.symm)
      rw [hcons, List.map_cons, lastByte, ih, byteOf_placed, if_pos hmem]
      split
      · rw [Option.or_self]
      · rw [Option.none_or]
    · have hmem : i ∈ (t :: rest).map Section.index ↔ i ∈ rest.map Section.index := by
        rw [List.map_cons, List.mem_cons]
        exact or_iff_right (Ne.symm hti)
      have hskip : lastByte ((imageContents p (t :: rest)).map placed) (addressOf i + k) =
          lastByte ((imageContents p rest).map placed) (addressOf i + k) := by
        unfold imageContents
        rw [List.filterMap_cons]
        split
        · rfl
        · rename_i c hc
          split at hc
          · cases hc
          · cases himage : p.sectionImage t.index with
            | error e =>
              rw [himage] at hc
              cases hc
            | ok data =>
              rw [himage] at hc
              cases hc
              rw [List.map_cons, lastByte, hsep.byteOf_eq_none h hk ht hti
                (sectionImage_length ht himage), Option.or_none]
      rw [hskip, ih]
      simp only [hmem]

/-- The byte that the relocated images leave. -/
theorem lastByte_headers (hsep : Separate p) (h : SectionAt p i s image) (hk : k < s.totalSize)
    {headers : List (RelocHeader × Nat)} (happly : HeadersApply p headers) :
    lastByte ((headerContents p headers).map placed) (addressOf i + k) =
      ((naming headers i).getLast?.bind (applyHeader p image)).bind fun result => result[k]? := by
  induction headers with
  | nil => rfl
  | cons e rest ih =>
    have hrest : HeadersApply p rest := fun e' he' => happly e' (List.mem_cons_of_mem _ he')
    have ih := ih hrest
    obtain ⟨data, r, hdata, hr⟩ := happly e List.mem_cons_self
    have hcons : headerContents p (e :: rest) =
        (e.1.sectionIndex, r) :: headerContents p rest := by
      refine List.filterMap_cons_some ?_
      rw [hdata]
      show Option.map _ (applyHeader p data e.2) = _
      rw [hr]
      rfl
    rw [hcons, List.map_cons, lastByte, ih]
    by_cases hei : e.1.sectionIndex = i
    · rw [hei, h.image, Except.ok.injEq] at hdata
      subst hdata
      have hnaming : naming (e :: rest) i = e.2 :: naming rest i := by
        simp [naming, hei]
      rw [hei, byteOf_placed, hnaming, List.getLast?_cons]
      cases hlast : (naming rest i).getLast? with
      | none =>
        show none.or r[k]? = (applyHeader p image e.2).bind fun result => result[k]?
        rw [hr]
        rfl
      | some h' =>
        -- A later header names the section too, and leaves a byte there.
        obtain ⟨r', hr'⟩ := hrest.of h.image h' (List.mem_of_getLast? hlast)
        have hlen := applyHeader_length hr'
        have hk' : k < r'.length := by
          rw [hlen, h.length]
          exact hk
        show ((applyHeader p image h').bind fun result => result[k]?).or r[k]? =
          (applyHeader p image h').bind fun result => result[k]?
        rw [hr', Option.bind_some, List.getElem?_eq_getElem hk', Option.some_or]
    · have hnaming : naming (e :: rest) i = naming rest i := by
        simp [naming, hei]
      cases hsec : p.sections[e.1.sectionIndex]? with
      | none =>
        simp only [PEF.sectionImage, hsec] at hdata
        cases hdata
      | some t =>
        have hlen := (applyHeader_length hr).trans (sectionImage_length hsec hdata)
        rw [hsep.byteOf_eq_none h hk hsec hei hlen, Option.or_none, hnaming]

/-- **The byte a section is left with** when no other section shares its address. -/
theorem lastByte_contents
    (hindex : ∀ (j : Nat) (t : Section), p.sections[j]? = some t → t.index = j)
    (hsep : Separate p) (h : SectionAt p i s image) (hk : k < s.totalSize)
    (happly : HeadersApply p p.relocHeaders.zipIdx) :
    lastByte ((contents p).map placed) (addressOf i + k) =
      (lastContents p image (headersOf p i)).bind fun result => result[k]? := by
  have hin : ∀ t ∈ p.sections, p.sections[t.index]? = some t := fun t ht => by
    obtain ⟨j, hj⟩ := List.mem_iff_getElem?.mp ht
    rw [hindex j t hj, hj]
  have hmem : i ∈ p.sections.map Section.index :=
    List.mem_map.mpr ⟨s, List.mem_of_getElem? h.get, hindex i s h.get⟩
  rw [contents, List.map_append, lastByte_append, lastByte_images hsep h hk hin, if_pos hmem,
    lastByte_headers hsep h hk happly, lastContents]
  show (((headersOf p i).getLast?.bind _).bind _).or _ = _
  cases hlast : (headersOf p i).getLast? with
  | none => rfl
  | some h' =>
    obtain ⟨r', hr'⟩ := happly.of h.image h' (List.mem_of_getLast? hlast)
    have hk' : k < r'.length := by
      rw [applyHeader_length hr', h.length]
      exact hk
    show ((applyHeader p image h').bind fun result => result[k]?).or image[k]? =
      (applyHeader p image h').bind fun result => result[k]?
    rw [hr', Option.bind_some, List.getElem?_eq_getElem hk', Option.some_or]

end Contents

section Loaded

variable {container : List UInt8} {imports : Dict Str Nat} {f : Fragment} {g' : Guest M}

/-- What `load` has written into a section without shared addresses. -/
theorem load_bytes (hM : M.Strict) (hinit : PEF.init container = .ok p)
    (hscratch : ByteMemory.MappedRange g.uc Guest.scratchBase Guest.scratchSize)
    (hload : load container imports g = .ok f g') (hsep : Separate p) {i : Nat} {s : Section}
    {image : List UInt8} (h : SectionAt p i s image) :
    lastContents p image (headersOf p i) =
      some (ByteMemory.bytes g'.uc (addressOf i) s.totalSize) := by
  obtain ⟨happly, hbyte⟩ := load_writes hM hinit hscratch hload
  have hlast : ∃ r, lastContents p image (headersOf p i) = some r ∧
      r.length = s.totalSize := by
    unfold lastContents
    split
    · exact ⟨image, rfl, h.length⟩
    · rename_i k hk
      obtain ⟨r, hr⟩ := happly.of h.image k (List.mem_of_getLast? hk)
      exact ⟨r, hr, (applyHeader_length hr).trans h.length⟩
  obtain ⟨r, hr, hlen⟩ := hlast
  rw [hr, Option.some.injEq]
  refine ((ByteMemory.bytes_eq_iff hlen).mpr fun k hk => ?_).symm
  have hcontents := lastByte_contents (fun j t => PEF.init_index hinit) hsep h hk happly
  rw [hr, Option.bind_some, List.getElem?_eq_getElem (by omega)] at hcontents
  rw [hbyte _ _ hcontents, List.getElem?_eq_getElem (by omega)]

/-- **Every relocation header takes effect** exactly when the last of the contents written at each
address of a section is what all its headers give. Where no two sections share an address that is
the case exactly when the headers of each section before its last leave its image as it is. -/
theorem load_takesEffect_iff (hM : M.Strict) (hinit : PEF.init container = .ok p)
    (hscratch : ByteMemory.MappedRange g.uc Guest.scratchBase Guest.scratchSize)
    (hload : load container imports g = .ok f g') :
    (TakesEffect p g'.uc ↔ LastContents p) ∧
      (Separate p → (TakesEffect p g'.uc ↔ EarlierIdle p)) := by
  obtain ⟨happly, hbyte⟩ := load_writes hM hinit hscratch hload
  refine ⟨⟨fun heffect => ?_, fun hlast => ?_⟩, fun hsep => ⟨fun heffect => ?_, fun hidle => ?_⟩⟩
  · intro i s image result k hs himage hresult hk
    obtain ⟨result', hresult', hbytes⟩ := heffect i s image hs himage
    rw [hresult, Option.some.injEq] at hresult'
    subst hresult'
    have hlen : result.length = s.totalSize :=
      (applyHeaders_length hresult).trans (sectionImage_length hs himage)
    have hown : (i, image) ∈ contents p := by
      refine List.mem_append_left _ (List.mem_filterMap.mpr ⟨s, List.mem_of_getElem? hs, ?_⟩)
      rw [if_neg (by omega), PEF.init_index hinit hs, himage]
      rfl
    obtain ⟨b, hb⟩ := lastByte_of_mem (List.mem_map_of_mem (f := placed) hown)
      (x := addressOf i + k) (Nat.le_add_right _ _) (by
        show addressOf i + k < addressOf i + image.length
        rw [sectionImage_length hs himage]
        omega)
    rw [hb, ← hbyte _ _ hb]
    exact (ByteMemory.bytes_eq_iff hlen).mp hbytes k hk
  · intro i s image hs himage
    obtain ⟨result, hresult⟩ := applyHeaders_some (happly.of himage) rfl
    have hlen : result.length = s.totalSize :=
      (applyHeaders_length hresult).trans (sectionImage_length hs himage)
    refine ⟨result, hresult, (ByteMemory.bytes_eq_iff hlen).mpr fun k hk => ?_⟩
    have hk' := hlast i s image result k hs himage hresult hk
    rw [List.getElem?_eq_getElem (by omega)] at hk' ⊢
    rw [hbyte _ _ hk']
  · intro i image himage
    cases hs : p.sections[i]? with
    | none =>
      simp only [PEF.sectionImage, hs] at himage
      cases himage
    | some s =>
      obtain ⟨result, hresult, hbytes⟩ := heffect i s image hs himage
      have hall : ∀ h ∈ headersOf p i, ∃ r, applyHeader p image h = some r := happly.of himage
      refine (lastContents_iff hall).mp ?_
      rw [load_bytes hM hinit hscratch hload hsep ⟨hs, himage⟩, hbytes]
      exact hresult.symm
  · intro i s image hs himage
    refine ⟨_, ?_, rfl⟩
    rw [← load_bytes hM hinit hscratch hload hsep ⟨hs, himage⟩]
    exact ((lastContents_iff (happly.of himage)).mpr (hidle i image himage)).symm

/-- Mapping a section with contents. -/
theorem mapImage_maps (hM : M.Strict) {addr size : Nat} (hsize : size ≠ 0) (executable : Bool)
    (g : Guest M) :
    wp (mapImage addr size executable)
      (fun _ g' => ¬ M.mapped g.uc addr ∧ ByteMemory.MappedRange g'.uc addr size)
      (fun _ _ => True) g := by
  have hdown := Guest.alignDown_le addr Guest.pageSize
  have hup : addr + size ≤ Guest.alignUp (addr + size) Guest.pageSize :=
    Guest.le_alignUp _ (by decide)
  rw [mapImage, if_pos hsize]
  refine wp_mono (Guest.map_does addr size _ g) (fun _ g' hm => ⟨?_, fun x h1 h2 => ?_⟩)
    fun _ _ h => h
  · exact hM.map_fresh hm addr hdown (by omega)
  · exact (M.map_mapped hm x).mpr (Or.inr ⟨by omega, by omega⟩)

/-- The second section does not begin inside the first. -/
def BeginsOutside (s t : Section) : Prop :=
  s.totalSize ≠ 0 → t.totalSize ≠ 0 →
    ¬ (baseOf s.index ≤ baseOf t.index ∧ baseOf t.index < baseOf s.index + s.totalSize)

/-- **Sections that are loaded begin outside each other**, and outside what was mapped before. -/
theorem loadSections_apart (hM : M.Strict) (sections : List Section) (g : Guest M) :
    wp (loadSections p sections)
      (fun _ _ => (∀ t ∈ sections, t.totalSize ≠ 0 → ¬ M.mapped g.uc (baseOf t.index)) ∧
        sections.Pairwise BeginsOutside)
      (fun _ _ => True) g := by
  induction sections generalizing g with
  | nil => exact ⟨fun t ht => absurd ht List.not_mem_nil, .nil⟩
  | cons s rest ih =>
    rw [loadSections]
    by_cases hsize : s.totalSize = 0
    · rw [if_neg (not_not.mpr hsize)]
      refine wp_mono (ih g) (fun _ _ h => ⟨fun t ht hne => ?_, .cons (fun t _ hs => ?_) h.2⟩)
        fun _ _ h => h
      · rcases List.mem_cons.mp ht with rfl | ht
        · exact absurd hsize hne
        · exact h.1 t ht hne
      · exact absurd hsize hs
    · rw [if_pos hsize]
      simp only [wp_bind]
      refine wp_mono (wp_and (mapImage_maps hM hsize _ g) (mapImage_does _ _ _ g))
        (fun _ g₁ hmap => ?_) fun _ _ _ => trivial
      obtain ⟨⟨hfresh, hrange⟩, hdoes⟩ := hmap
      refine wp_ofExcept (fun image _ => ?_) fun _ _ => trivial
      refine wp_mono (write_does _ image g₁) (fun _ g₂ hwrite => ?_) fun _ _ h => h
      refine wp_mono (ih g₂) (fun _ _ h => ⟨fun t ht hne => ?_, .cons (fun t ht _ hne => ?_) h.2⟩)
        fun _ _ h => h
      · rcases List.mem_cons.mp ht with rfl | ht
        · exact hfresh
        · exact fun hx => h.1 t ht hne (hwrite.mapped (hdoes.mapped hx))
      · rintro ⟨h1, h2⟩
        exact h.1 t ht hne (hwrite.mapped (hrange _ h1 h2))

/-- **Sections below index 240** share no address: their bases are below `2 ^ 32`. -/
theorem separate_of_load (hM : M.Strict) (hinit : PEF.init container = .ok p)
    (hload : load container imports g = .ok f g')
    (hsmall : ∀ s ∈ p.sections, s.totalSize ≠ 0 → s.index < 240) : Separate p := by
  have happart : p.sections.Pairwise BeginsOutside := by
    suffices h : wp (load container imports) (fun _ _ => p.sections.Pairwise BeginsOutside)
        (fun _ _ => True) g by
      have h := wp_of_ok h hload
      exact h
    rw [load, wp_bind]
    refine wp_ofExcept (fun p' hp' => ?_) fun _ _ => trivial
    rw [hinit, Except.ok.injEq] at hp'
    subst hp'
    split
    · trivial
    rw [wp_bind]
    refine wp_mono (loadSections_apart hM p.sections g) (fun _ g₁ h => ?_) fun _ _ h => h
    exact wp_mono (wp_self _ g₁) (fun _ _ _ => h.2) fun _ _ _ => trivial
  have hbase : ∀ (i : Nat) (s : Section), p.sections[i]? = some s → s.totalSize ≠ 0 →
      addressOf i = baseOf i ∧ s.index = i := fun i s hs hsize => by
    have hindex := PEF.init_index hinit hs
    have := hsmall s (List.mem_of_getElem? hs) hsize
    refine ⟨Nat.mod_eq_of_lt ?_, hindex⟩
    unfold baseOf sectionBase sectionStride
    omega
  have hlt : ∀ (i j : Nat) (s t : Section), p.sections[i]? = some s → p.sections[j]? = some t →
      i < j → s.totalSize ≠ 0 → t.totalSize ≠ 0 → addressOf i + s.totalSize ≤ addressOf j := by
    intro i j s t hs ht hij hs0 ht0
    obtain ⟨hi, rfl⟩ := List.getElem?_eq_some_iff.mp hs
    obtain ⟨hj, rfl⟩ := List.getElem?_eq_some_iff.mp ht
    have hout := List.pairwise_iff_getElem.mp happart i j hi hj hij hs0 ht0
    obtain ⟨hai, hii⟩ := hbase i _ hs hs0
    obtain ⟨haj, hjj⟩ := hbase j _ ht ht0
    rw [hii, hjj] at hout
    rw [hai, haj]
    have hle : baseOf i ≤ baseOf j := Nat.add_le_add_left (Nat.mul_le_mul_left _ hij.le) _
    omega
  intro i j s t hs ht hij
  by_cases hs0 : s.totalSize = 0
  · exact Or.inr (Or.inr (Or.inl hs0))
  by_cases ht0 : t.totalSize = 0
  · exact Or.inr (Or.inr (Or.inr ht0))
  rcases Nat.lt_or_gt_of_ne hij with h | h
  · exact Or.inl (hlt i j s t hs ht h hs0 ht0)
  · exact Or.inr (Or.inl (hlt j i t s ht hs h ht0 hs0))

end Loaded


/-- A container with one section of data, whose first word two relocation headers add to: the first
the delta of section 0, the second that of section 1. -/
def twoHeaders : List UInt8 :=
  PEF.joy ++ PEF.peff ++ List.replicate 24 0 ++ [0, 2] ++ List.replicate 6 0 ++
    (List.replicate 8 0 ++ [0, 0, 0, 4] ++ [0, 0, 0, 4] ++ [0, 0, 0, 4] ++ [0, 0, 0, 96] ++
      [1, 0, 0, 0]) ++
    (List.replicate 8 0 ++ List.replicate 8 0 ++ [0, 0, 0, 84] ++ [0, 0, 0, 100] ++ [4, 0, 0, 0]) ++
    [0, 0, 0, 7] ++
    ([0xFF, 0xFF, 0xFF, 0xFF, 0, 0, 0, 0, 0xFF, 0xFF, 0xFF, 0xFF, 0, 0, 0, 0] ++
      [0xFF, 0xFF, 0xFF, 0xFF, 0, 0, 0, 0] ++ List.replicate 8 0 ++ [0, 0, 0, 2] ++
      [0, 0, 0, 80] ++ [0, 0, 0, 84] ++ [0, 0, 0, 84] ++ List.replicate 8 0) ++
    [0, 0, 0, 0, 0, 0, 0, 1, 0, 0, 0, 0] ++ [0, 0, 0, 0, 0, 0, 0, 1, 0, 0, 0, 2] ++
    [0x40, 0, 0x42, 0]

/-- A guest with its scratch region. -/
def freshGuest : Guest ByteMemory.paged where
  uc := (⟨[(Guest.scratchBase, Guest.scratchSize)], fun _ => 0⟩ : ByteMemory.Paged)

/-- What `PEF.init` makes of the container. -/
def twoHeadersPef : PEF where
  data := twoHeaders
  sections :=
    [⟨0, .unpackedData, 0, 4, 4, 4, 96, 1⟩, ⟨1, .loader, 0, 0, 0, 84, 100, 1⟩]
  loader := twoHeaders.drop 100
  loaderHeader := some ⟨-1, 0, -1, 0, -1, 0, 0, 0, 2, 80, 84, 84, 0, 0⟩
  libraries := []
  imports := []
  relocHeaders := [⟨0, 1, 0⟩, ⟨0, 1, 2⟩]

set_option maxRecDepth 8000 in
theorem twoHeaders_init : PEF.init twoHeaders = .ok twoHeadersPef := rfl

/-- The container is loaded, and the first header is lost. -/
theorem twoHeaders_loaded :
    (okState (load twoHeaders .empty freshGuest)).map
      (fun g => ByteMemory.bytes g.uc 0x10000000 4) = some [0x11, 0, 0, 7] := by
  decide +kernel

theorem twoHeaders_run : ∃ f g', load twoHeaders .empty freshGuest = .ok f g' ∧
    ByteMemory.bytes g'.uc 0x10000000 4 = [0x11, 0, 0, 7] := by
  have h := twoHeaders_loaded
  cases hload : load twoHeaders .empty freshGuest with
  | error e g' =>
    rw [hload] at h
    cases h
  | ok f g' =>
    rw [hload] at h
    exact ⟨f, g', rfl, Option.some.inj h⟩

theorem freshGuest_scratch :
    ByteMemory.MappedRange freshGuest.uc Guest.scratchBase Guest.scratchSize := fun _ h1 h2 =>
  List.any_eq_true.mpr ⟨_, List.mem_cons_self, decide_eq_true ⟨h1, h2⟩⟩

theorem load_takesEffect_iff_twoHeaders : ∃ f g', load twoHeaders .empty freshGuest = .ok f g' ∧
    (TakesEffect twoHeadersPef g'.uc ↔ LastContents twoHeadersPef) ∧
      (Separate twoHeadersPef → (TakesEffect twoHeadersPef g'.uc ↔ EarlierIdle twoHeadersPef)) := by
  obtain ⟨f, g', hload, -⟩ := twoHeaders_run
  exact ⟨f, g', hload, load_takesEffect_iff ByteMemory.paged_strict twoHeaders_init
    freshGuest_scratch hload⟩

/-- **A header without effect**: with both headers the first word would be `0x21000007`. -/
theorem twoHeaders_lost : PEF.init twoHeaders = .ok twoHeadersPef ∧
    ∃ f g', load twoHeaders .empty freshGuest = .ok f g' ∧ ¬ TakesEffect twoHeadersPef g'.uc := by
  obtain ⟨f, g', hload, hbytes⟩ := twoHeaders_run
  refine ⟨twoHeaders_init, f, g', hload, fun heffect => ?_⟩
  obtain ⟨result, hresult, hbytes'⟩ := heffect 0 _ [0, 0, 0, 7] rfl (by decide +kernel)
  have hboth : applyHeaders twoHeadersPef [0, 0, 0, 7] (headersOf twoHeadersPef 0) =
      some [0x21, 0, 0, 7] := by decide +kernel
  rw [hboth, Option.some.injEq] at hresult
  rw [← hresult] at hbytes'
  exact absurd (hbytes.symm.trans hbytes') (by decide)

end Cwhost.Pef
