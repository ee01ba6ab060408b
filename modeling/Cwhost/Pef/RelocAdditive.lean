import Cwhost.Lib.WordPatch
import Cwhost.Pef.RelocRefines

/-!
# Relocation is additive in the load addresses

The values a stream adds are known only when it is run, but which value goes to which word is not
a matter of the values: `walk` runs a stream on symbols (`Source`) instead of numbers and collects
the words it patches with the symbol each of them gets.

* `step_view`: every run is the walk, seen through the numbers the symbols stand for.
* `applyRelocations_eq`: so the result is the image, patched at the sites of the walk.
* `applyRelocations_additive`: **relocating twice is relocating once by the sums**, and relocating
  by the negated values undoes it, where every patched offset is a multiple of 4.

Premises: every offset a stream patches is a multiple of 4, so that two words are the same or apart.
-/

namespace Cwhost.Pef

open Lib

/-! ## Running a stream on symbols -/

/-- Where a relocation value comes from. -/
inductive Source
  | initialC
  | initialD
  | section_ (index : Nat)
  | import_ (index : Nat)
  deriving DecidableEq, Repr

/-- What a run needs to know of its arguments: the size of the image and the lengths of the two
lists. -/
structure Extent where
  size : Nat
  sections : Nat
  imports : Nat

/-- The state of the walk; `sites` are the words patched so far, with what each of them gets. -/
structure Walk where
  pos : Nat
  importIndex : Nat
  currentC : Source
  currentD : Source
  sites : List (Nat × Source)

namespace Extent

variable (x : Extent)

/-- Patch the word at the position and move on by `gap` bytes. -/
def addMove (source : Source) (gap : Nat) (t : Walk) : Option Walk :=
  if t.pos + 4 ≤ x.size then
    some { t with sites := t.sites ++ [(t.pos, source)], pos := t.pos + gap }
  else none

/-- A section that exists. -/
def section? (index : Nat) : Option Source :=
  if index < x.sections then some (.section_ index) else none

/-- An import that exists. -/
def import? (index : Nat) : Option Source :=
  if index < x.imports then some (.import_ index) else none

/-- One instruction of the walk. -/
def step (t : Walk) : Plain → Option Walk
  | .skip words count =>
    times (fun t => x.addMove t.currentD 4 t) count { t with pos := t.pos + 4 * words }
  | .byC count => times (x.addMove t.currentC 4) count t
  | .byD count => times (x.addMove t.currentD 4) count t
  | .tv12 count =>
    times (fun t => (x.addMove t.currentC 4 t).bind fun t => x.addMove t.currentD 8 t) count t
  | .tv8 count =>
    times (fun t => (x.addMove t.currentC 4 t).bind fun t => x.addMove t.currentD 4 t) count t
  | .vtable8 count => times (fun t => x.addMove t.currentD 8 t) count t
  | .importRun count =>
    times (fun t => (x.import? t.importIndex).bind fun source =>
      (x.addMove source 4 t).map fun t => { t with importIndex := t.importIndex + 1 }) count t
  | .importAt index =>
    (x.import? index).bind fun source =>
      (x.addMove source 4 t).map fun t => { t with importIndex := index + 1 }
  | .setC index => (x.section? index).map fun source => { t with currentC := source }
  | .setD index => (x.section? index).map fun source => { t with currentD := source }
  | .addSection index => (x.section? index).bind fun source => x.addMove source 4 t
  | .incr amount => some { t with pos := t.pos + amount }
  | .setPosition offset => some { t with pos := offset }

end Extent

/-- **The sites of a stream**: the offsets it patches in turn, with what each of them gets. -/
def walk (x : Extent) (stream : List UInt8) : Option (List (Nat × Source)) :=
  (streamPlains stream).bind fun ps =>
    (ps.foldlM x.step ⟨0, 0, .initialC, .initialD, []⟩).map Walk.sites

/-! ## The walk seen through numbers -/

/-- One set of values. -/
structure Values where
  env : RelocEnv
  initialC : Int
  initialD : Int

namespace Values

/-- The number a symbol stands for. -/
def eval (v : Values) : Source → Int
  | .initialC => v.initialC
  | .initialD => v.initialD
  | .section_ index => v.env.sectionDeltas.getD index 0
  | .import_ index => v.env.imports.getD index 0

/-- What the walk has to know of a run with these values. -/
def extent (v : Values) (image : List UInt8) : Extent :=
  ⟨image.length, v.env.sectionDeltas.length, v.env.imports.length⟩

/-- The state of the run at a state of the walk. -/
def view (v : Values) (image : List UInt8) (t : Walk) : RelocState where
  section_ := patchAll v.eval t.sites image
  pos := t.pos
  importIndex := t.importIndex
  currentC := v.eval t.currentC
  currentD := v.eval t.currentD

/-- `apply_relocations` with these values. -/
def apply (v : Values) (image stream : List UInt8) : Option (List UInt8) :=
  (okState (applyRelocations image stream v.env v.initialC v.initialD)).map RelocState.section_

end Values

/-- The sites so far lie inside the image. -/
def Walk.Inside (size : Nat) (t : Walk) : Prop := ∀ p ∈ t.sites, p.1 + 4 ≤ size

section View

variable {v : Values} {image : List UInt8}

/-- The run has got where the walk has, and the walk inside the image. -/
structure Seen (v : Values) (image : List UInt8) (r : Option RelocState) (q : Option Walk) :
    Prop where
  eq : r = q.map (v.view image)
  inside : ∀ t, q = some t → t.Inside image.length

theorem seen_some {t : Walk} (ht : t.Inside image.length) :
    Seen v image (some (v.view image t)) (some t) :=
  ⟨rfl, fun _ h => Option.some.inj h ▸ ht⟩

theorem seen_bind {r : Option RelocState} {q : Option Walk} {f : RelocState → Option RelocState}
    {g : Walk → Option Walk} (h : Seen v image r q)
    (hf : ∀ t : Walk, t.Inside image.length → Seen v image (f (v.view image t)) (g t)) :
    Seen v image (r.bind f) (q.bind g) := by
  obtain ⟨rfl, hin⟩ := h
  cases q with
  | none => exact ⟨rfl, fun t ht => by cases ht⟩
  | some t => exact hf t (hin t rfl)

theorem seen_times {f : RelocState → Option RelocState} {g : Walk → Option Walk}
    (hf : ∀ t : Walk, t.Inside image.length → Seen v image (f (v.view image t)) (g t))
    (n : Nat) {t : Walk} (ht : t.Inside image.length) :
    Seen v image (times f n (v.view image t)) (times g n t) := by
  induction n generalizing t with
  | zero => exact seen_some ht
  | succ n ih => exact seen_bind (hf t ht) fun t' ht' => ih ht'

/-- Setting the import index afterwards. -/
theorem seen_map {r : Option RelocState} {q : Option Walk} (h : Seen v image r q)
    (next : Nat → Nat) :
    Seen v image (r.map fun s => { s with importIndex := next s.importIndex })
      (q.map fun t => { t with importIndex := next t.importIndex }) := by
  rw [Option.map_eq_bind, Option.map_eq_bind]
  refine seen_bind h fun t ht => ?_
  exact seen_some (t := { t with importIndex := next t.importIndex }) ht

/-- **A patch of the run** is a site of the walk. -/
theorem seen_addMove (source : Source) (gap : Nat) {t : Walk} (ht : t.Inside image.length) :
    Seen v image (addMove (v.eval source) gap (v.view image t))
      ((v.extent image).addMove source gap t) := by
  have hlen : (v.view image t).section_.length = image.length := patchAll_length ht v.eval
  unfold addMove Extent.addMove
  rw [hlen, show (v.view image t).pos = t.pos from rfl,
    show (v.extent image).size = image.length from rfl]
  by_cases hpos : t.pos + 4 ≤ image.length
  · rw [if_pos hpos, if_pos hpos]
    refine ⟨?_, fun t' h => ?_⟩
    · simp only [Option.map_some, Values.view, patchAll, List.foldl_append]
      rfl
    · cases h
      intro p hp
      rcases List.mem_append.mp hp with hp | hp
      · exact ht p hp
      · rw [List.mem_singleton.mp hp]
        exact hpos
  · rw [if_neg hpos, if_neg hpos]
    exact ⟨rfl, fun _ h => by cases h⟩

/-- Looking up a value of a list, for symbols that stand for its items. -/
theorem seen_lookup {l : List Int} {symbol : Nat → Source}
    (hsymbol : ∀ i, v.eval (symbol i) = l.getD i 0) (index : Nat)
    {F : Int → Option RelocState} {G : Source → Option Walk}
    (h : ∀ source, Seen v image (F (v.eval source)) (G source)) :
    Seen v image (l[index]?.bind F)
      ((if index < l.length then some (symbol index) else none).bind G) := by
  by_cases hi : index < l.length
  · have hval : l[index]? = some (v.eval (symbol index)) := by
      rw [hsymbol, List.getD_eq_getElem?_getD, List.getElem?_eq_getElem hi, Option.getD_some]
    rw [hval, if_pos hi]
    exact h _
  · rw [List.getElem?_eq_none (by omega), if_neg hi]
    exact ⟨rfl, fun _ h => by cases h⟩

theorem seen_import (index : Nat) {F : Int → Option RelocState} {G : Source → Option Walk}
    (h : ∀ source, Seen v image (F (v.eval source)) (G source)) :
    Seen v image (v.env.imports[index]?.bind F) (((v.extent image).import? index).bind G) :=
  seen_lookup (fun _ => rfl) index h

theorem seen_section (index : Nat) {F : Int → Option RelocState} {G : Source → Option Walk}
    (h : ∀ source, Seen v image (F (v.eval source)) (G source)) :
    Seen v image (v.env.sectionDeltas[index]?.bind F)
      (((v.extent image).section? index).bind G) :=
  seen_lookup (fun _ => rfl) index h

/-- **Every instruction of a run** is the one of the walk, seen through the values. -/
theorem step_view (p : Plain) {t : Walk} (ht : t.Inside image.length) :
    Seen v image (step v.env (v.view image t) p) ((v.extent image).step t p) := by
  cases p with
  | skip words count =>
    refine seen_times (fun t ht => ?_) count (t := { t with pos := t.pos + 4 * words }) ht
    exact seen_addMove t.currentD 4 ht
  | byC count =>
    exact seen_times (fun t' ht' => seen_addMove t.currentC 4 ht') count ht
  | byD count =>
    exact seen_times (fun t' ht' => seen_addMove t.currentD 4 ht') count ht
  | tv12 count =>
    refine seen_times (fun t ht => ?_) count ht
    refine seen_bind (seen_addMove t.currentC 4 ht) fun t' ht' => ?_
    exact seen_addMove t'.currentD 8 ht'
  | tv8 count =>
    refine seen_times (fun t ht => ?_) count ht
    refine seen_bind (seen_addMove t.currentC 4 ht) fun t' ht' => ?_
    exact seen_addMove t'.currentD 4 ht'
  | vtable8 count =>
    refine seen_times (fun t ht => ?_) count ht
    exact seen_addMove t.currentD 8 ht
  | importRun count =>
    refine seen_times (fun t ht => ?_) count ht
    refine seen_import t.importIndex fun source => ?_
    exact seen_map (seen_addMove source 4 ht) (· + 1)
  | importAt index =>
    refine seen_import index fun source => ?_
    exact seen_map (seen_addMove source 4 ht) fun _ => index + 1
  | setC index =>
    simp only [step, Extent.step, Option.map_eq_bind]
    refine seen_section index fun source => ?_
    exact seen_some (t := { t with currentC := source }) ht
  | setD index =>
    simp only [step, Extent.step, Option.map_eq_bind]
    refine seen_section index fun source => ?_
    exact seen_some (t := { t with currentD := source }) ht
  | addSection index => exact seen_section index fun source => seen_addMove source 4 ht
  | incr amount => exact seen_some (t := { t with pos := t.pos + amount }) ht
  | setPosition offset => exact seen_some (t := { t with pos := offset }) ht

theorem foldlM_view (ps : List Plain) {t : Walk} (ht : t.Inside image.length) :
    Seen v image (ps.foldlM (step v.env) (v.view image t))
      (ps.foldlM (v.extent image).step t) := by
  induction ps generalizing t with
  | nil => exact seen_some ht
  | cons p ps ih =>
    rw [List.foldlM_cons, List.foldlM_cons]
    exact seen_bind (step_view p ht) fun t' ht' => ih ht'

/-- **The result of a run** is the image patched at the sites of the walk. -/
theorem apply_eq (v : Values) (image stream : List UInt8) :
    v.apply image stream =
        (walk (v.extent image) stream).map (fun sites => patchAll v.eval sites image) ∧
      ∀ sites, walk (v.extent image) stream = some sites → ∀ p ∈ sites, p.1 + 4 ≤ image.length := by
  unfold Values.apply walk
  rw [okState_applyRelocations]
  cases streamPlains stream with
  | none => exact ⟨rfl, fun _ h => by cases h⟩
  | some ps =>
    have hstart : Walk.Inside image.length ⟨0, 0, .initialC, .initialD, []⟩ := by
      intro p hp
      exact absurd hp List.not_mem_nil
    obtain ⟨heq, hin⟩ := foldlM_view (v := v) ps hstart
    have hrun : ps.foldlM (step v.env) (.initial image v.initialC v.initialD) =
        (ps.foldlM (v.extent image).step ⟨0, 0, .initialC, .initialD, []⟩).map
          (v.view image) := heq
    simp only [Option.bind_some]
    rw [hrun]
    cases hw : ps.foldlM (v.extent image).step ⟨0, 0, .initialC, .initialD, []⟩ with
    | none => exact ⟨rfl, fun _ h => by cases h⟩
    | some t =>
      refine ⟨rfl, fun sites h => ?_⟩
      cases h
      exact hin t hw

end View

/-! ## Sums of values -/

namespace Values

/-- The pointwise sum. -/
def add (v w : Values) : Values where
  env :=
    { sectionDeltas := List.zipWith (· + ·) v.env.sectionDeltas w.env.sectionDeltas
      imports := List.zipWith (· + ·) v.env.imports w.env.imports }
  initialC := v.initialC + w.initialC
  initialD := v.initialD + w.initialD

/-- The pointwise negation. -/
def neg (v : Values) : Values where
  env :=
    { sectionDeltas := v.env.sectionDeltas.map (- ·)
      imports := v.env.imports.map (- ·) }
  initialC := -v.initialC
  initialD := -v.initialD

/-- The lists have the same lengths. -/
structure SameLengths (v w : Values) : Prop where
  sections : v.env.sectionDeltas.length = w.env.sectionDeltas.length
  imports : v.env.imports.length = w.env.imports.length

end Values

theorem getD_zipWith_add {a b : List Int} (h : a.length = b.length) (i : Nat) :
    (List.zipWith (· + ·) a b).getD i 0 = a.getD i 0 + b.getD i 0 := by
  simp only [List.getD_eq_getElem?_getD, List.getElem?_zipWith]
  by_cases hi : i < a.length
  · rw [List.getElem?_eq_getElem hi, List.getElem?_eq_getElem (h ▸ hi)]
    rfl
  · rw [List.getElem?_eq_none (by omega), List.getElem?_eq_none (by omega)]
    rfl

theorem getD_map_neg (a : List Int) (i : Nat) : (a.map (- ·)).getD i 0 = -a.getD i 0 := by
  simp only [List.getD_eq_getElem?_getD, List.getElem?_map]
  cases a[i]? <;> rfl

theorem eval_add {v w : Values} (h : v.SameLengths w) (source : Source) :
    (v.add w).eval source = v.eval source + w.eval source := by
  cases source with
  | initialC => rfl
  | initialD => rfl
  | section_ index => exact getD_zipWith_add h.sections index
  | import_ index => exact getD_zipWith_add h.imports index

theorem eval_neg (v : Values) (source : Source) : v.neg.eval source = -v.eval source := by
  cases source with
  | initialC => rfl
  | initialD => rfl
  | section_ index => exact getD_map_neg _ index
  | import_ index => exact getD_map_neg _ index

/-- The offsets a run with these values patches. -/
def patchedOffsets (v : Values) (image stream : List UInt8) : List Nat :=
  ((walk (v.extent image) stream).getD []).map Prod.fst

/-- Sites at multiples of 4 are apart. -/
theorem apart_of_aligned {size : Nat} {sites : List (Nat × Source)}
    (hin : ∀ p ∈ sites, p.1 + 4 ≤ size) (hal : ∀ p ∈ sites, p.1 % 4 = 0) : Apart size sites := by
  refine ⟨hin, fun p hp q hq => ?_⟩
  have h1 := hal p hp
  have h2 := hal q hq
  omega

/-- **Relocation is additive**: on an image and a stream that relocate by `v` and patch only
offsets that are multiples of 4, relocating the result by `w` gives the bytes that relocating the
image by the sums gives; and relocating it by the negated values gives the image back. -/
theorem applyRelocations_additive {image stream result : List UInt8} {v w : Values}
    (hlen : v.SameLengths w) (hrun : v.apply image stream = some result)
    (haligned : ∀ offset ∈ patchedOffsets v image stream, offset % 4 = 0) :
    (∃ final, w.apply result stream = some final ∧ (v.add w).apply image stream = some final) ∧
      v.neg.apply result stream = some image := by
  obtain ⟨heq, hin⟩ := apply_eq v image stream
  rw [heq] at hrun
  obtain ⟨sites, hsites, rfl⟩ := Option.map_eq_some_iff.mp hrun
  have hinside := hin sites hsites
  have hal : ∀ p ∈ sites, p.1 % 4 = 0 := by
    intro p hp
    refine haligned p.1 ?_
    rw [patchedOffsets, hsites]
    exact List.mem_map_of_mem hp
  have hapart := apart_of_aligned hinside hal
  have hsize : (patchAll v.eval sites image).length = image.length :=
    patchAll_length hinside v.eval
  have hextent : ∀ u : Values, v.SameLengths u →
      u.extent (patchAll v.eval sites image) = v.extent image ∧
        u.extent image = v.extent image := by
    intro u hu
    unfold Values.extent
    rw [hsize, hu.sections, hu.imports]
    exact ⟨rfl, rfl⟩
  have hneg : v.SameLengths v.neg := ⟨by simp [Values.neg], by simp [Values.neg]⟩
  have hadd : v.SameLengths (v.add w) :=
    ⟨by simp [Values.add, hlen.sections], by simp [Values.add, hlen.imports]⟩
  refine ⟨⟨patchAll (v.add w).eval sites image, ?_, ?_⟩, ?_⟩
  · rw [(apply_eq w _ stream).1, (hextent w hlen).1, hsites, Option.map_some,
      patchAll_patchAll hapart fun site _ => eval_add hlen site.2]
  · rw [(apply_eq _ image stream).1, (hextent _ hadd).2, hsites, Option.map_some]
  · have hzero : patchAll (v.add v.neg).eval sites image = image := by
      refine patchAll_zero hinside fun site _ => ?_
      rw [eval_add hneg, eval_neg, Int.add_right_neg]
    rw [(apply_eq _ _ stream).1, (hextent _ hneg).1, hsites, Option.map_some,
      patchAll_patchAll hapart fun site _ => eval_add hneg site.2, hzero]

/-- A run that adds the code address to one word and the first import to the next. -/
theorem applyRelocations_additive_twoWords :
    let v : Values := ⟨⟨[], [0x100]⟩, 5, 0⟩
    let w : Values := ⟨⟨[], [0x200]⟩, 7, 0⟩
    (∃ final, w.apply [0, 0, 0, 6, 0, 0, 1, 0] [0x40, 0, 0x60, 0] = some final ∧
        (v.add w).apply [0, 0, 0, 1, 0, 0, 0, 0] [0x40, 0, 0x60, 0] = some final) ∧
      v.neg.apply [0, 0, 0, 6, 0, 0, 1, 0] [0x40, 0, 0x60, 0] =
        some [0, 0, 0, 1, 0, 0, 0, 0] :=
  applyRelocations_additive ⟨rfl, rfl⟩ (by decide) (by decide)

end Cwhost.Pef
