import Cwhost.Pef.LoaderImages

/-!
# The table of import descriptors after `load`

The plug-in calls an import through a descriptor of two words, the address of the code and no table
of contents. `load` writes one for each import, before it relocates the sections.

* `bindImports_writes`: what the loop over the imports writes and remembers.
* `relocations_mapped`: what is written after it falls on addresses the sections had before.
* `load_descriptors`: **every import has its descriptor when `load` ends**, and `import_descriptor`
  finds the first of a name.
-/

namespace Cwhost.Pef

open Lib

/-- `import_descriptor`. -/
def Fragment.importDescriptor (f : Fragment) (name : Str) : Except Exc Nat :=
  match f.descriptors.get? name with
  | some address => pure address
  | none => throw (.hostError s!"unknown fragment import {String.ofList name}")

/-- The slot of an import, or 0. -/
def slotOf (imports : Dict Str Nat) (item : Import) : Nat := (imports.get? item.name).getD 0

/-- The address of the descriptor of an import. -/
def descriptorAt (index : Nat) : Nat := descriptorBase + index * 8

/-- The descriptors of the imports, as they are written. -/
def descriptorWrites (imports : Dict Str Nat) (items : List (Import × Nat)) :
    List (Nat × List UInt8) :=
  items.map fun e => (descriptorAt e.2, toBE 4 (slotOf imports e.1) ++ toBE 4 0)

/-- `descriptors` after the loop. -/
def rememberAll (items : List (Import × Nat)) (descriptors : Dict Str Nat) : Dict Str Nat :=
  items.foldl (fun d e => setDefault d e.1.name (descriptorAt e.2)) descriptors

variable {M : ByteMemory} {p : PEF} {g : Guest M}

/-! ## The loop over the imports -/

theorem get?_setDefault (d : Dict Str Nat) (name q : Str) (address : Nat) :
    (setDefault d name address).get? q =
      (d.get? q).or (if q = name then some address else none) := by
  unfold setDefault
  by_cases hq : q = name
  · subst hq
    rw [if_pos rfl]
    cases hd : d.get? q with
    | some v => rw [Option.isSome_some, if_pos rfl, hd, Option.some_or]
    | none => rw [Option.isSome_none, if_neg (by decide), Dict.get?_set_self, Option.none_or]
  · rw [if_neg hq, Option.or_none]
    split
    · rfl
    · rw [Dict.get?_set_of_ne _ _ hq]

/-- The first import of a name is remembered. -/
theorem get?_rememberAll (items : List Import) (k : Nat) (d : Dict Str Nat) (name : Str) :
    (rememberAll (items.zipIdx k) d).get? name =
      (d.get? name).or
        ((items.findIdx? fun item => item.name = name).map fun i => descriptorAt (k + i)) := by
  induction items generalizing k d with
  | nil => rw [List.findIdx?_nil, Option.map_none, Option.or_none]; rfl
  | cons item rest ih =>
    rw [List.zipIdx_cons, rememberAll, List.foldl_cons]
    show (rememberAll (rest.zipIdx (k + 1)) _).get? name = _
    rw [ih, get?_setDefault, Option.or_assoc, List.findIdx?_cons]
    by_cases hname : item.name = name
    · rw [if_pos hname.symm, if_pos (decide_eq_true hname)]
      rfl
    · rw [if_neg (Ne.symm hname), if_neg (by simpa using hname), Option.none_or, Option.map_map]
      congr 2
      funext i
      show descriptorAt _ = descriptorAt _
      rw [Nat.add_assoc, Nat.add_comm 1]

/-- **What the loop writes and remembers.** -/
theorem bindImports_writes (imports : Dict Str Nat) {n : Nat}
    (hn : descriptorBase + n * 8 ≤ 2 ^ 32) (items : List (Import × Nat))
    (hitems : ∀ e ∈ items, e.2 < n) (values : List Int) (descriptors : Dict Str Nat)
    (g : Guest M) :
    wp (bindImports imports items values descriptors)
      (fun r g' => ByteMemory.Does M g.uc (descriptorWrites imports items) g'.uc ∧
        r.2 = rememberAll items descriptors ∧ ∀ e ∈ items, slotOf imports e.1 < 2 ^ 32)
      (fun _ _ => True) g := by
  induction items generalizing values descriptors g with
  | nil => exact ⟨.refl g.uc, rfl, fun e he => absurd he List.not_mem_nil⟩
  | cons e rest ih =>
    obtain ⟨item, index⟩ := e
    have hlt : index < n := hitems _ List.mem_cons_self
    simp only [bindImports, wp_bind, wp_ite, wp_throw]
    refine ⟨fun _ => trivial, fun hslot => ?_⟩
    refine wp_mono (write_does _ _ g) (fun _ g₁ hwrite => ?_) fun _ _ h => h
    rw [descriptor_lt hn hlt] at hwrite
    refine wp_mono (ih (fun e he => hitems e (List.mem_cons_of_mem _ he)) _ _ g₁)
      (fun r g₂ hrest => ?_) fun _ _ h => h
    obtain ⟨hdoes, hr, hslots⟩ := hrest
    refine ⟨hwrite.trans hdoes, hr, fun e he => ?_⟩
    rcases List.mem_cons.mp he with rfl | he
    · exact not_le.mp hslot
    · exact hslots e he

/-! ## What is written later -/

/-- **The relocated images fall on addresses that the sections had** when the images were written,
before the descriptors were mapped. -/
theorem relocations_mapped (hM : M.Strict) {container : List UInt8}
    (hinit : PEF.init container = .ok p) {s₀ s₁ : M.State}
    (himages : ByteMemory.Does M s₀ ((imageContents p p.sections).map placed) s₁)
    (headers : List (RelocHeader × Nat)) {w : Nat × List UInt8}
    (hw : w ∈ (headerContents p headers).map placed) {x : Nat} (h1 : w.1 ≤ x)
    (h2 : x < w.1 + w.2.length) : M.mapped s₁ x := by
  obtain ⟨c, hc, rfl⟩ := List.mem_map.mp hw
  obtain ⟨e, -, he⟩ := List.mem_filterMap.mp hc
  obtain ⟨result, hresult, rfl⟩ := Option.map_eq_some_iff.mp he
  obtain ⟨image, himage, happly⟩ := Option.bind_eq_some_iff.mp hresult
  replace himage : p.sectionImage e.1.sectionIndex = .ok image := by
    cases hread : p.sectionImage e.1.sectionIndex with
    | error e' => rw [hread] at himage; cases himage
    | ok image' => rw [hread] at himage; cases himage; rfl
  have hlen := applyHeader_length happly
  obtain ⟨s, hs⟩ : ∃ s, p.sections[e.1.sectionIndex]? = some s := by
    rw [PEF.sectionImage] at himage
    split at himage
    · cases himage
    · exact ⟨_, ‹_›⟩
  have hsize := sectionImage_length hs himage
  have hindex := PEF.init_index hinit hs
  have hmem : placed (e.1.sectionIndex, image) ∈ (imageContents p p.sections).map placed := by
    refine List.mem_map_of_mem (List.mem_filterMap.mpr ⟨s, List.mem_of_getElem? hs, ?_⟩)
    rw [hindex, himage, if_neg (by simp only [placed] at h1 h2; omega)]
    rfl
  obtain ⟨b, hb⟩ := lastByte_of_mem hmem h1 (by simp only [placed] at h2 ⊢; omega)
  exact ((himages.byte hM).1 b hb).1

/-- The descriptors do not overlap. -/
theorem lastByte_descriptors (imports : Dict Str Nat) {i : Nat} {item : Import}
    (hitem : p.imports[i]? = some item) {k : Nat} (hk : k < 8) :
    lastByte (descriptorWrites imports p.imports.zipIdx) (descriptorAt i + k) =
      (toBE 4 (slotOf imports item) ++ toBE 4 0)[k]? := by
  have hmem : (descriptorAt i, toBE 4 (slotOf imports item) ++ toBE 4 0) ∈
      descriptorWrites imports p.imports.zipIdx :=
    List.mem_map.mpr ⟨(item, i), List.mem_zipIdx_iff_getElem?.mpr hitem, rfl⟩
  rw [lastByte_of_disjoint hmem (fun w' hw' hne => ?_) (Nat.le_add_right _ _),
    Nat.add_sub_cancel_left]
  obtain ⟨⟨item', j⟩, he, rfl⟩ := List.mem_map.mp hw'
  have hj : j ≠ i := by
    rintro rfl
    refine hne ?_
    rw [Option.some.inj ((List.mem_zipIdx_iff_getElem?.mp he).symm.trans hitem)]
  simp only [descriptorAt, List.length_append, toBE_length]
  omega

/-! ## The whole of `load` -/

/-- No strong import is left unbound. -/
theorem bound_of_missing {imports : Dict Str Nat} (h : missing p imports = []) {item : Import}
    (hitem : item ∈ p.imports) (hweak : item.weak = false) : (imports.get? item.name).isSome := by
  by_contra hnone
  have hname : item.name ∈ missing p imports := by
    refine List.mem_mergeSort.mpr (List.mem_map_of_mem (List.mem_filter.mpr ⟨hitem, ?_⟩))
    rw [hweak]
    simpa using hnone
  rw [h] at hname
  cases hname

/-- The descriptors as `load` leaves them: the words of each import, and where `import_descriptor`
finds a name. -/
structure Described (p : PEF) (imports : Dict Str Nat) (f : Fragment) (uc : M.State) : Prop where
  words : ∀ i item, p.imports[i]? = some item →
    ByteMemory.bytes uc (descriptorAt i) 8 = toBE 4 (slotOf imports item) ++ toBE 4 0
  slots : ∀ item ∈ p.imports, slotOf imports item < 2 ^ 32
  bound : ∀ item ∈ p.imports, item.weak = false → (imports.get? item.name).isSome
  named : ∀ name, f.descriptors.get? name =
    (p.imports.findIdx? fun item => item.name = name).map descriptorAt

/-- **The table of descriptors** that the loop writes lies on fresh addresses and is complete. -/
theorem bindDescriptors_writes (hM : M.Strict) (p : PEF) (imports : Dict Str Nat)
    (hscratch : ByteMemory.MappedRange g.uc Guest.scratchBase Guest.scratchSize) :
    wp (mapDescriptors p.imports.length >>= fun _ =>
        bindImports imports p.imports.zipIdx [] .empty)
      (fun r g' => r.2 = rememberAll p.imports.zipIdx .empty ∧
        (∀ item ∈ p.imports, slotOf imports item < 2 ^ 32) ∧
        ∀ i item, p.imports[i]? = some item → ∀ k, k < 8 →
          ¬ M.mapped g.uc (descriptorAt i + k) ∧ M.mapped g'.uc (descriptorAt i + k) ∧
          some (M.byte g'.uc (descriptorAt i + k)) =
            (toBE 4 (slotOf imports item) ++ toBE 4 0)[k]?)
      (fun _ _ => True) g := by
  rw [wp_bind, mapDescriptors]
  split
  · refine wp_mono (Guest.map_does _ _ _ g) (fun _ g₁ hmap => ?_) fun _ _ h => h
    have hbelow := descriptors_below hM hscratch hmap
    have hfit : descriptorBase + p.imports.length * 8 ≤ 2 ^ 32 := Nat.le_trans hbelow (by decide)
    refine wp_mono (bindImports_writes imports hfit _ (fun e he => ?_) [] .empty g₁)
      (fun r g₂ h => ?_) fun _ _ h => h
    · have := (List.mem_zipIdx he).2.1
      omega
    obtain ⟨hdoes, hr, hslots⟩ := h
    refine ⟨hr, fun item hitem => ?_, fun i item hitem k hk => ?_⟩
    · obtain ⟨i, hi⟩ := List.mem_iff_getElem?.mp hitem
      exact hslots (item, i) (List.mem_zipIdx_iff_getElem?.mpr hi)
    have hi : i < p.imports.length := (List.getElem?_eq_some_iff.mp hitem).1
    have hlast := lastByte_descriptors (k := k) imports hitem hk
    have hlen : k < (toBE 4 (slotOf imports item) ++ toBE 4 0).length := by
      simpa only [List.length_append, toBE_length] using hk
    rw [List.getElem?_eq_getElem hlen] at hlast ⊢
    have hbyte := (hdoes.byte hM).1 _ hlast
    refine ⟨hM.map_fresh hmap _ ?_ ?_, hbyte.1, congrArg some hbyte.2⟩
    · have := Guest.alignDown_le descriptorBase Guest.pageSize
      unfold descriptorAt
      omega
    · have := Guest.alignDown_le descriptorBase Guest.pageSize
      have hup : descriptorBase + p.imports.length * 8 ≤ Guest.alignUp _ Guest.pageSize :=
        Guest.le_alignUp _ (by decide)
      unfold descriptorAt
      omega
  · rename_i hnone
    have hnil : p.imports = [] := List.eq_nil_of_length_eq_zero (not_not.mp hnone)
    rw [hnil]
    exact ⟨rfl, fun item hitem => absurd hitem List.not_mem_nil, fun i item hitem => by cases hitem⟩

/-- **Every import has its descriptor** when `load` ends: the relocation of the sections has left
the table alone. -/
theorem load_descriptors (hM : M.Strict) {container : List UInt8} {imports : Dict Str Nat}
    {f : Fragment} {g' : Guest M} (hinit : PEF.init container = .ok p)
    (hscratch : ByteMemory.MappedRange g.uc Guest.scratchBase Guest.scratchSize)
    (hload : load container imports g = .ok f g') :
    f.pef = p ∧ Described p imports f g'.uc := by
  suffices h : wp (load container imports)
      (fun f g' => f.pef = p ∧ Described p imports f g'.uc) (fun _ _ => True) g by
    have h := wp_of_ok h hload
    exact h
  simp only [load, wp_bind]
  refine wp_ofExcept (fun p' hp' => ?_) fun _ _ => trivial
  rw [hinit, Except.ok.injEq] at hp'
  subst hp'
  split
  · trivial
  rename_i hmissing
  simp only [wp_bind]
  refine wp_mono (loadSections_does p.sections g) (fun _ g₁ hsections => ?_) fun _ _ h => h
  refine wp_mono (Guest.map_does _ _ _ g₁) (fun _ g₂ hmap => ?_) fun _ _ h => h
  refine wp_mono (write_does _ _ g₂) (fun _ g₃ hwrite => ?_) fun _ _ h => h
  have hkeeps₁ : ByteMemory.Keeps M g₁.uc g₃.uc := by
    refine keeps_of_map hM hmap hwrite fun w hw => ?_
    rw [List.mem_singleton.mp hw]
    exact ⟨Nat.le_refl _, Nat.add_le_add_left (Nat.le_max_left _ _) _⟩
  have hscratch₃ : ByteMemory.MappedRange g₃.uc Guest.scratchBase Guest.scratchSize :=
    fun x h1 h2 => hkeeps₁.mapped x (hsections.mapped (hscratch x h1 h2))
  have hdescriptors := (wp_bind _ _).mp (wp_and (bindDescriptors_keeps hM p imports hscratch₃)
    (bindDescriptors_writes hM p imports hscratch₃))
  refine wp_mono hdescriptors (fun _ g₄ h => ?_) fun _ _ _ => trivial
  refine wp_mono h (fun r g₅ hbind => ?_) fun _ _ _ => trivial
  obtain ⟨⟨hvalues, -⟩, hremembered, hslots, hwords⟩ := hbind
  rw [hvalues]
  refine wp_mono (relocateSections_does p.relocHeaders.zipIdx g₅) (fun _ g₆ hreloc => ?_)
    fun _ _ h => h
  refine wp_mono (protectSections_eq p.sections g₆) (fun _ g₇ hprotect => ?_) fun _ _ h => h
  subst hprotect
  refine wp_ofExcept (fun exports _ => ?_) fun _ _ => trivial
  refine ⟨rfl, fun i item hitem => ?_, hslots, fun item hitem hweak =>
    bound_of_missing hmissing hitem hweak, fun name => ?_⟩
  · refine (ByteMemory.bytes_eq_iff (by simp)).mpr fun k hk => ?_
    obtain ⟨hfresh, hmapped, hbyte⟩ := hwords i item hitem k hk
    rw [(hreloc.2.byte hM).2 hmapped, hbyte]
    -- A relocated image that covered the descriptor would lie on mapped addresses.
    exact lastByte_eq_none fun w hw hcovers => hfresh (hkeeps₁.mapped _
      (relocations_mapped hM hinit hsections p.relocHeaders.zipIdx hw hcovers.1 hcovers.2))
  · show r.2.get? name = _
    rw [hremembered, get?_rememberAll, Dict.get?_empty, Option.none_or]
    simp only [Nat.zero_add]

end Cwhost.Pef
