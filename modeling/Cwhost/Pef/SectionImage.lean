import Cwhost.Pef.PidataEncoding

/-!
# Section images

`section_image` looks a section up by index, but for a pattern-initialised section it takes the
expansion of `pidata`, which is that of the first pattern-initialised section of the container.

* `sectionImage_pattern`, `sectionImage_stored`: what the two branches return.
* `sectionImage_own_iff`: the image is the section's own contents exactly when the section is not
  pattern-initialised, is the first that is, or the two expansions agree.
* `twoPatterns`: a container with two pattern-initialised sections where they do not.
-/

namespace Cwhost.Pef

open Lib

/-! ## Cutting and zero-filling -/

theorem fit_eq (size : Nat) (bytes : List UInt8) :
    fit size bytes = (List.range size).map fun i => bytes.getD i 0 := by
  refine List.ext_getElem? fun i => ?_
  rw [fit, List.getElem?_append, List.length_take, List.getElem?_take, List.getElem?_replicate,
    List.getElem?_map]
  by_cases hi : i < size
  · rw [List.getElem?_range hi]
    by_cases hb : i < bytes.length
    · rw [if_pos (by omega), if_pos hi, List.getElem?_eq_getElem hb, Option.map_some,
        List.getD_eq_getElem?_getD, List.getElem?_eq_getElem hb]
      rfl
    · rw [if_neg (by omega), if_pos (by omega), Option.map_some, List.getD_eq_getElem?_getD,
        List.getElem?_eq_none (by omega)]
      rfl
  · rw [if_neg (by omega), if_neg (by omega), List.getElem?_eq_none (by simpa using hi)]
    rfl

@[simp] theorem fit_length (size : Nat) (bytes : List UInt8) : (fit size bytes).length = size := by
  rw [fit_eq, List.length_map, List.length_range]

/-- Zeros at the end make no difference. -/
theorem fit_append_zeros (size n : Nat) (bytes : List UInt8) :
    fit size (bytes ++ List.replicate n 0) = fit size bytes := by
  rw [fit_eq, fit_eq]
  refine List.map_congr_left fun i _ => ?_
  rw [List.getD_eq_getElem?_getD, List.getD_eq_getElem?_getD, List.getElem?_append]
  split
  · rfl
  · rename_i h
    rw [List.getElem?_eq_none (l := bytes) (by omega), List.getElem?_replicate]
    split <;> rfl

/-! ## The two branches -/

/-- A section's own contents: its stored bytes, expanded if it is pattern-initialised. -/
def PEF.contents (p : PEF) (s : Section) : Except Exc (List UInt8) :=
  if s.kind = .patternInitializedData then do
    let packed ← sectionBytes p.data s
    let expanded ← expandPacked packed s.unpackedSize
    return expanded.output
  else sectionBytes p.data s

variable {data : List UInt8} {p : PEF} {i : Nat} {s f : Section} {image : List UInt8}

theorem PEF.sectionImage_stored (hinit : PEF.init data = .ok p) (hs : p.sections[i]? = some s)
    (hk : s.kind ≠ .patternInitializedData) (h : p.sectionImage i = .ok image) :
    ∃ own, p.contents s = .ok own ∧ image = fit s.totalSize own := by
  simp only [PEF.sectionImage, hs] at h
  rw [if_neg hk] at h
  obtain ⟨own, hraw, h⟩ := bind_eq_ok h
  cases h
  refine ⟨own, ?_, rfl⟩
  rw [PEF.contents, if_neg hk, ← hraw, ← PEF.init_index hinit hs,
    PEF.rawSection_eq hinit (List.mem_of_getElem? hs)]

/-- **A pattern-initialised section gets the first one's expansion.** -/
theorem PEF.sectionImage_pattern (hinit : PEF.init data = .ok p) (hs : p.sections[i]? = some s)
    (hk : s.kind = .patternInitializedData) (h : p.sectionImage i = .ok image) :
    ∃ f first, p.patternSection = some f ∧ p.contents f = .ok first ∧
      image = fit s.totalSize first := by
  simp only [PEF.sectionImage, hs] at h
  rw [if_pos hk] at h
  obtain ⟨r, hr, h⟩ := bind_eq_ok h
  cases h
  cases hf : p.patternSection with
  | none =>
    have := List.find?_eq_none.mp hf s (List.mem_of_getElem? hs)
    exact absurd hk (by simpa using this)
  | some f =>
    rw [PEF.pidata, hf] at hr
    obtain ⟨packed, hraw, hr⟩ := bind_eq_ok hr
    obtain ⟨st, hst, hr⟩ := bind_eq_ok hr
    cases hr
    have hfk : f.kind = .patternInitializedData := by simpa using List.find?_some hf
    refine ⟨f, st.output, rfl, ?_, fit_append_zeros _ _ _⟩
    rw [PEF.rawSection_eq hinit (List.mem_of_find?_eq_some hf)] at hraw
    rw [PEF.contents, if_pos hfk, hraw]
    show (expandPacked packed f.unpackedSize >>= _) = _
    rw [hst]
    rfl

/-! ## When an image is the section's own -/

/-- The image of section `i` is made of its own contents, cut or zero-filled to its total size. -/
def PEF.OwnImage (p : PEF) (i : Nat) (image : List UInt8) : Prop :=
  ∃ s own, p.sections[i]? = some s ∧ p.contents s = .ok own ∧ image.length = s.totalSize ∧
    image = fit s.totalSize own

/-- Section `i` is not pattern-initialised, no earlier section is, or the first one that is
expands to the same bytes up to the total size of section `i`. -/
def PEF.PatternAgrees (p : PEF) (i : Nat) : Prop :=
  ∀ s f, p.sections[i]? = some s → s.kind = .patternInitializedData → p.patternSection = some f →
    f.index = i ∨ ∃ own first, p.contents s = .ok own ∧ p.contents f = .ok first ∧
      fit s.totalSize own = fit s.totalSize first

/-- **Exactly when `section_image` returns the section's own bytes.** -/
theorem sectionImage_own_iff (hinit : PEF.init data = .ok p) (h : p.sectionImage i = .ok image) :
    p.OwnImage i image ↔ p.PatternAgrees i := by
  cases hs : p.sections[i]? with
  | none =>
    simp only [PEF.sectionImage, hs] at h
    cases h
  | some s =>
    by_cases hk : s.kind = .patternInitializedData
    · obtain ⟨f, first, hf, hfirst, rfl⟩ := PEF.sectionImage_pattern hinit hs hk h
      constructor
      · rintro ⟨s', own, hs', hown, -, hfit⟩ s'' f' hs'' - hf'
        rw [hs, Option.some.injEq] at hs' hs''
        rw [hf, Option.some.injEq] at hf'
        subst hs' hs'' hf'
        exact Or.inr ⟨own, first, hown, hfirst, hfit.symm⟩
      · intro hagree
        rcases hagree s f hs hk hf with hi | ⟨own, first', hown, hfirst', hfit⟩
        · have hmem := List.mem_of_find?_eq_some hf
          obtain ⟨j, hj⟩ := List.mem_iff_getElem?.mp hmem
          have hji : j = i := (PEF.init_index hinit hj).symm.trans hi
          rw [hji, hs, Option.some.injEq] at hj
          exact ⟨s, first, hs, hj ▸ hfirst, fit_length _ _, rfl⟩
        · rw [hfirst, Except.ok.injEq] at hfirst'
          rw [hfirst']
          exact ⟨s, own, hs, hown, fit_length _ _, hfit.symm⟩
    · obtain ⟨own, hown, rfl⟩ := PEF.sectionImage_stored hinit hs hk h
      refine ⟨fun _ s' f hs' hk' _ => ?_, fun _ => ⟨s, own, hs, hown, fit_length _ _, rfl⟩⟩
      rw [hs, Option.some.injEq] at hs'
      exact absurd (hs' ▸ hk') hk

/-- A container with two pattern-initialised sections of one byte, `0xAA` and `0xBB`. -/
def twoPatterns : List UInt8 :=
  PEF.joy ++ PEF.peff ++ List.replicate 24 0 ++ [0, 2] ++ List.replicate 6 0 ++
    (List.replicate 8 0 ++ [0, 0, 0, 1] ++ [0, 0, 0, 1] ++ [0, 0, 0, 2] ++ [0, 0, 0, 96] ++
      [2, 0, 0, 0]) ++
    (List.replicate 8 0 ++ [0, 0, 0, 1] ++ [0, 0, 0, 1] ++ [0, 0, 0, 2] ++ [0, 0, 0, 98] ++
      [2, 0, 0, 0]) ++
    [0x21, 0xAA, 0x21, 0xBB]

/-- What `PEF.init` makes of it. -/
def twoPatternsPef : PEF where
  data := twoPatterns
  sections :=
    [⟨0, .patternInitializedData, 0, 1, 1, 2, 96, 1⟩,
      ⟨1, .patternInitializedData, 0, 1, 1, 2, 98, 1⟩]
  loader := []
  loaderHeader := none
  libraries := []
  imports := []
  relocHeaders := []

set_option maxRecDepth 4000 in
theorem twoPatterns_init : PEF.init twoPatterns = .ok twoPatternsPef := rfl

theorem twoPatternsPef_image : ∀ i < 2, twoPatternsPef.sectionImage i = .ok [0xAA]
  | 0, _ => rfl
  | 1, _ => rfl

/-- The condition is met by the first section of `twoPatterns`. -/
theorem sectionImage_own_iff_first :
    twoPatternsPef.OwnImage 0 [0xAA] ↔ twoPatternsPef.PatternAgrees 0 :=
  sectionImage_own_iff twoPatterns_init (twoPatternsPef_image 0 (by decide))

/-- The image of the second section of `twoPatterns` is the first one's byte. -/
theorem sectionImage_other :
    ¬ ∀ (data : List UInt8) (p : PEF) (i : Nat) (image : List UInt8), PEF.init data = .ok p →
      p.sectionImage i = .ok image → p.OwnImage i image := by
  intro h
  obtain ⟨s, own, hs, hown, -, hfit⟩ :=
    h twoPatterns twoPatternsPef 1 [0xAA] twoPatterns_init (twoPatternsPef_image 1 (by decide))
  cases hs
  cases hown
  exact absurd hfit (by decide)

end Cwhost.Pef
