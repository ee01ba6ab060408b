import Cwhost.Guest
import Cwhost.Pef.Pidata
import Cwhost.Pef.Reloc
import Mathlib.Data.Char
import Mathlib.Data.List.Lex

/-!
# The loader (`loader.py`, `load`)

`load` maps every section of a container at an address of its own and writes its image there, maps
the container itself and a table of import descriptors, and relocates the sections header by header.
-/

namespace Cwhost.Pef

open Lib

/-- `SECTION_BASE`. -/
def sectionBase : Nat := 0x10000000

/-- `SECTION_STRIDE`. -/
def sectionStride : Nat := 0x01000000

/-- `IMAGE_BASE`. -/
def imageBase : Nat := 0x0F000000

/-- `DESCRIPTOR_BASE`. -/
def descriptorBase : Nat := 0x29000000

/-- `Fragment`. -/
structure Fragment where
  pef : PEF
  sectionBase : List Nat
  imageBase : Nat
  exports : Dict Str (Int × Nat)
  imports : Dict Str Nat
  descriptors : Dict Str Nat

namespace Fragment

/-- `tvector`. -/
def tvector (f : Fragment) (name : Str) : Except Exc Nat :=
  match f.exports.get? name with
  | none => throw (.hostError s!"unknown fragment export {String.ofList name}")
  | some (section_, offset) =>
    if section_ < 0 ∨ section_ ≥ f.sectionBase.length then
      throw (.hostError s!"export {String.ofList name} references section {section_}")
    else pure (f.sectionBase.getD section_.toNat 0 + offset)

/-- `_optional_entry_tvector`; `entry` picks the two header fields of that name. -/
def optionalEntryTvector (f : Fragment) (name : String) (entry : LoaderHeader → Int × Nat) :
    Except Exc (Option Nat) :=
  match f.pef.loaderHeader with
  | none => throw .keyError
  | some header =>
    let (section_, offset) := entry header
    if section_ < 0 then pure none
    else if section_ ≥ f.sectionBase.length then
      throw (.hostError s!"fragment {name} entry references section {section_}")
    else pure (some (f.sectionBase.getD section_.toNat 0 + offset))

/-- `main_tvector`. -/
def mainTvector (f : Fragment) : Except Exc Nat := do
  match ← f.optionalEntryTvector "main" fun h => (h.mainSection, h.mainOffset) with
  | some tvector => pure tvector
  | none => throw (.hostError "fragment has no main entry point")

/-- `init_tvector`. -/
def initTvector (f : Fragment) : Except Exc (Option Nat) :=
  f.optionalEntryTvector "init" fun h => (h.initSection, h.initOffset)

/-- `term_tvector`. -/
def termTvector (f : Fragment) : Except Exc (Option Nat) :=
  f.optionalEntryTvector "term" fun h => (h.termSection, h.termOffset)

end Fragment

/-- The base of the section with the given index, an entry of `section_bases`. -/
def baseOf (index : Nat) : Nat := sectionBase + sectionStride * index

/-- `section.kind in ("code", "executable_data")`. -/
def Section.executable (s : Section) : Bool :=
  decide (s.kind = .code ∨ s.kind = .executableData)

/-- `missing`: the names of the imports that are neither bound nor weak. -/
def missing (p : PEF) (imports : Dict Str Nat) : List Str :=
  let names := (p.imports.filter fun item =>
    decide ((imports.get? item.name).isNone ∧ ¬ item.weak)).map Import.name
  names.mergeSort fun a b => decide (a ≤ b)

variable {M : ByteMemory}

/-- `_map_image`. -/
def mapImage (address size : Nat) (executable : Bool) : EStateM Exc (Guest M) Unit := do
  if size ≠ 0 then
    Guest.map address size (if executable then ['r', 'w', 'x'] else ['r', 'w'])

/-- The loop that maps the sections and writes their images. -/
def loadSections (p : PEF) : List Section → EStateM Exc (Guest M) Unit
  | [] => pure ()
  | s :: rest => do
    if s.totalSize ≠ 0 then
      mapImage (baseOf s.index) s.totalSize s.executable
      let image ← MonadExcept.ofExcept (p.sectionImage s.index)
      Guest.write (baseOf s.index) image
    loadSections p rest

/-- Map the descriptor table. -/
def mapDescriptors (descriptorCount : Nat) : EStateM Exc (Guest M) Unit := do
  if descriptorCount ≠ 0 then
    Guest.map descriptorBase (descriptorCount * 8) ['r', 'w']

/-- `descriptors.setdefault(name, address)`. -/
def setDefault (descriptors : Dict Str Nat) (name : Str) (address : Nat) : Dict Str Nat :=
  if (descriptors.get? name).isSome then descriptors else descriptors.set name address

/-- The loop over `enumerate(parsed.imports)`: `import_values` and `descriptors`. -/
def bindImports (imports : Dict Str Nat) :
    List (Import × Nat) → List Int → Dict Str Nat → EStateM Exc (Guest M) (List Int × Dict Str Nat)
  | [], importValues, descriptors => pure (importValues, descriptors)
  | (item, index) :: rest, importValues, descriptors => do
    let address := descriptorBase + index * 8
    let slot := (imports.get? item.name).getD 0
    if slot ≥ 2 ^ 32 then
      throw .structError
    Guest.write address (toBE 4 slot ++ toBE 4 0)
    bindImports imports rest (importValues ++ [(address : Int)])
      (setDefault descriptors item.name address)

/-- The loop over `enumerate(parsed.reloc_headers)`. -/
def relocateSections (p : PEF) (env : RelocEnv) :
    List (RelocHeader × Nat) → EStateM Exc (Guest M) Unit
  | [] => pure ()
  | (header, index) :: rest => do
    if header.sectionIndex ≥ p.sections.length then
      throw (.hostError s!"relocations reference section {header.sectionIndex}")
    let target ← MonadExcept.ofExcept (p.sectionImage header.sectionIndex)
    let stream ← MonadExcept.ofExcept (p.relocStream index)
    match applyRelocations target stream env (env.sectionDeltas.getD 0 0)
        (env.sectionDeltas.getD 1 0) with
    | .ok _ s => Guest.write (baseOf header.sectionIndex) s.section_
    | .error e _ => throw e
    relocateSections p env rest

/-- The loop that tightens the executable mappings. -/
def protectSections : List Section → EStateM Exc (Guest M) Unit
  | [] => pure ()
  | s :: rest => do
    if s.totalSize ≠ 0 ∧ s.executable then
      Guest.protect s.totalSize ['r', 'x']
    protectSections rest

/-- `load`, for the container read from the path. -/
def load (container : List UInt8) (imports : Dict Str Nat) : EStateM Exc (Guest M) Fragment := do
  let parsed ← MonadExcept.ofExcept (PEF.init container)
  match missing parsed imports with
  | name :: _ => throw (.unimplementedImport (String.ofList name))
  | [] => pure ()
  loadSections parsed parsed.sections
  Guest.map imageBase (max container.length 1) ['r']
  Guest.write imageBase container
  mapDescriptors parsed.imports.length
  let (importValues, descriptors) ← bindImports imports parsed.imports.zipIdx [] .empty
  let sectionDeltas := parsed.sections.map fun s => (baseOf s.index : Int) - s.defaultAddress
  relocateSections parsed { sectionDeltas, imports := importValues } parsed.relocHeaders.zipIdx
  protectSections parsed.sections
  let exports ← MonadExcept.ofExcept parsed.exports
  return {
    pef := parsed
    sectionBase := parsed.sections.map fun s => baseOf s.index
    imageBase := imageBase
    exports := exports
    imports := parsed.imports.foldl
      (fun d item => d.set item.name ((imports.get? item.name).getD 0)) .empty
    descriptors := descriptors }

end Cwhost.Pef
