import Cwhost.Lib.Dict
import Cwhost.Lib.Layout
import Cwhost.Lib.Outcome
import Cwhost.MacRoman

/-!
# The PEF container (`pef.py`, `PEF.__init__`)

`PEF.init` accepts or rejects the bytes of a container and parses its section table and, when
there is a loader section, the loader header, the import tables and the relocation headers.
Header fields that nothing reads (dates, versions, tags) are not kept.

Source: `pef.py`, `PEF.__init__`, `_section_bytes`, `raw_section`, `_parse_loader_header`,
`_parse_imports`, `_parse_reloc_headers`, `exports`, `reloc_stream`.

Premises: byte strings are shorter than 2^63, as Python's are; `struct.unpack_from` fails outside
its byte string (`unpackCheck`).
-/

namespace Cwhost.Pef

open Lib

/-- `u16`, inside the bounds of `buf`. -/
def u16 (buf : List UInt8) (offset : Nat) : Nat := beNat (slice buf offset (offset + 2))

/-- `u32`, inside the bounds of `buf`. -/
def u32 (buf : List UInt8) (offset : Nat) : Nat := beNat (slice buf offset (offset + 4))

/-- A signed word, `struct` format `i`. -/
def i32 (buf : List UInt8) (offset : Nat) : Int :=
  let v := u32 buf offset
  if v < 2 ^ 31 then v else (v : Int) - 2 ^ 32

/-- One byte, inside the bounds of `buf`. -/
def u8 (buf : List UInt8) (offset : Nat) : Nat := (buf.getD offset 0).toNat

/-- `SECTION_KINDS`, and `unknown_{n}`. -/
inductive SectionKind
  | code
  | unpackedData
  | patternInitializedData
  | constant
  | loader
  | debug
  | executableData
  | exception
  | traceback
  | unknown (n : Nat)
  deriving DecidableEq, Repr

/-- `SECTION_KINDS.get(n, f"unknown_{n}")`. -/
def sectionKind : Nat → SectionKind
  | 0 => .code
  | 1 => .unpackedData
  | 2 => .patternInitializedData
  | 3 => .constant
  | 4 => .loader
  | 5 => .debug
  | 6 => .executableData
  | 7 => .exception
  | 8 => .traceback
  | n => .unknown n

/-- `Section`. -/
structure Section where
  index : Nat
  kind : SectionKind
  defaultAddress : Nat
  totalSize : Nat
  unpackedSize : Nat
  packedSize : Nat
  containerOffset : Nat
  alignment : Nat
  deriving DecidableEq, Repr

/-- `Import`. -/
structure Import where
  index : Nat
  name : Str
  library : Option Str
  weak : Bool
  deriving DecidableEq, Repr

/-- An entry of `libraries`. -/
structure Library where
  index : Nat
  offset : Nat
  nameOffset : Nat
  oldImpVersion : Nat
  currentVersion : Nat
  importedSymbolCount : Nat
  firstImportedSymbol : Nat
  options : Nat
  initBeforeClient : Bool
  weak : Bool
  name : Str
  deriving DecidableEq, Repr

/-- `loader_header`. -/
structure LoaderHeader where
  mainSection : Int
  mainOffset : Nat
  initSection : Int
  initOffset : Nat
  termSection : Int
  termOffset : Nat
  importedLibraryCount : Nat
  totalImportedSymbolCount : Nat
  relocSectionCount : Nat
  relocInstrOffset : Nat
  loaderStringsOffset : Nat
  exportHashOffset : Nat
  exportHashTablePower : Nat
  exportedSymbolCount : Nat
  deriving DecidableEq, Repr

/-- An entry of `reloc_headers`. -/
structure RelocHeader where
  sectionIndex : Nat
  relocCountBlocks : Nat
  firstRelocOffset : Nat
  deriving DecidableEq, Repr

/-- `PEF`: a parsed container, with the parts of its loader section. -/
structure PEF where
  data : List UInt8
  sections : List Section
  /-- The bytes of the loader section, empty without one. -/
  loader : List UInt8
  loaderHeader : Option LoaderHeader
  libraries : List Library
  imports : List Import
  relocHeaders : List RelocHeader
  deriving DecidableEq, Repr

/-- `cstr`. -/
def cstr (buf : List UInt8) (off : Nat) : Str :=
  if off ≥ buf.length then [] else decodeMacRoman ((buf.drop off).takeWhile (· ≠ 0))

/-- The section record at `40 + index * 28`. -/
def readSection (data : List UInt8) (index : Nat) : Section :=
  let offset := 40 + index * 28
  { index := index
    kind := sectionKind (u8 data (offset + 24))
    defaultAddress := u32 data (offset + 4)
    totalSize := u32 data (offset + 8)
    unpackedSize := u32 data (offset + 12)
    packedSize := u32 data (offset + 16)
    containerOffset := u32 data (offset + 20)
    alignment := 1 <<< u8 data (offset + 26) }

/-- The loop over the section table, for `count` records from `index` on. -/
def readSections (data : List UInt8) : Nat → Nat → Except Exc (List Section)
  | 0, _ => pure []
  | count + 1, index => do
    if 40 + index * 28 + 28 > data.length then
      throw (.pefError "truncated section table")
    let rest ← readSections data count (index + 1)
    return readSection data index :: rest

/-- `_section_bytes`. -/
def sectionBytes (data : List UInt8) (section_ : Section) : Except Exc (List UInt8) :=
  let stop := section_.containerOffset + section_.packedSize
  if stop > data.length then throw (.pefError s!"section {section_.index} exceeds file")
  else pure (slice data section_.containerOffset stop)

/-- `_parse_loader_header`. -/
def parseLoaderHeader (loader : List UInt8) : Except Exc LoaderHeader :=
  if loader.length < 56 then throw (.pefError "truncated loader header")
  else pure
    { mainSection := i32 loader 0
      mainOffset := u32 loader 4
      initSection := i32 loader 8
      initOffset := u32 loader 12
      termSection := i32 loader 16
      termOffset := u32 loader 20
      importedLibraryCount := u32 loader 24
      totalImportedSymbolCount := u32 loader 28
      relocSectionCount := u32 loader 32
      relocInstrOffset := u32 loader 36
      loaderStringsOffset := u32 loader 40
      exportHashOffset := u32 loader 44
      exportHashTablePower := u32 loader 48
      exportedSymbolCount := u32 loader 52 }

/-- The library record at `position`. -/
def readLibrary (loader : List UInt8) (strings index position : Nat) : Library :=
  let nameOffset := u32 loader position
  let options := u8 loader (position + 20)
  { index := index
    offset := position
    nameOffset := nameOffset
    oldImpVersion := u32 loader (position + 4)
    currentVersion := u32 loader (position + 8)
    importedSymbolCount := u32 loader (position + 12)
    firstImportedSymbol := u32 loader (position + 16)
    options := options
    initBeforeClient := options &&& 0x80 ≠ 0
    weak := options &&& 0x40 ≠ 0
    name := cstr loader (strings + nameOffset) }

/-- The first loop of `_parse_imports`: the libraries and the position after them. -/
def readLibraries (loader : List UInt8) (strings : Nat) :
    Nat → Nat → Nat → Except Exc (List Library × Nat)
  | 0, _, position => pure ([], position)
  | count + 1, index, position => do
    if position + 24 > loader.length then
      throw (.pefError "truncated library table")
    let (rest, stop) ← readLibraries loader strings count (index + 1) (position + 24)
    return (readLibrary loader strings index position :: rest, stop)

/-- The import record at `position`. -/
def readImport (loader : List UInt8) (strings : Nat) (libraries : List Library)
    (index position : Nat) : Import :=
  let flags := u8 loader position
  let nameOffset := beNat (slice loader (position + 1) (position + 4))
  let library := libraries.find? fun library =>
    decide (library.firstImportedSymbol ≤ index ∧
      index < library.firstImportedSymbol + library.importedSymbolCount)
  { index := index
    name := cstr loader (strings + nameOffset)
    library := library.map Library.name
    weak := flags &&& 0x80 ≠ 0 }

/-- The second loop of `_parse_imports`: the imports and `_after_imports`. -/
def readImports (loader : List UInt8) (strings : Nat) (libraries : List Library) :
    Nat → Nat → Nat → Except Exc (List Import × Nat)
  | 0, _, position => pure ([], position)
  | count + 1, index, position => do
    if position + 4 > loader.length then
      throw (.pefError "truncated import table")
    let (rest, stop) ← readImports loader strings libraries count (index + 1) (position + 4)
    return (readImport loader strings libraries index position :: rest, stop)

/-- `_parse_reloc_headers`, from `position` on. -/
def readRelocHeaders (loader : List UInt8) : Nat → Nat → Except Exc (List RelocHeader)
  | 0, _ => pure []
  | count + 1, position => do
    if position + 12 > loader.length then
      throw (.pefError "truncated relocation header")
    let rest ← readRelocHeaders loader count (position + 12)
    return { sectionIndex := u16 loader position
             relocCountBlocks := u32 loader (position + 4)
             firstRelocOffset := u32 loader (position + 8) } :: rest

namespace PEF

/-- `loader`: the bytes of the first loader section, none without one. -/
def loaderBytes (data : List UInt8) (sections : List Section) : Except Exc (List UInt8) :=
  match sections.find? fun s => decide (s.kind = .loader) with
  | some s => sectionBytes data s
  | none => pure []

/-- `b"Joy!"`. -/
def joy : List UInt8 := [0x4A, 0x6F, 0x79, 0x21]

/-- `b"peff"`. -/
def peff : List UInt8 := [0x70, 0x65, 0x66, 0x66]

/-- `PEF.__init__`. -/
def init (data : List UInt8) : Except Exc PEF := do
  if data.length < 40 ∨ slice data 0 4 ≠ joy ∨ slice data 4 8 ≠ peff then
    throw (.pefError "not a PEF container")
  let sections ← readSections data (u16 data 32) 0
  let loader ← loaderBytes data sections
  if loader = [] then
    return { data, sections, loader, loaderHeader := none, libraries := [], imports := [],
             relocHeaders := [] }
  else
    let header ← parseLoaderHeader loader
    let strings := header.loaderStringsOffset
    let (libraries, afterLibraries) ← readLibraries loader strings header.importedLibraryCount 0 56
    let (imports, afterImports) ←
      readImports loader strings libraries header.totalImportedSymbolCount 0 afterLibraries
    let relocHeaders ← readRelocHeaders loader header.relocSectionCount afterImports
    return { data, sections, loader, loaderHeader := some header, libraries, imports,
             relocHeaders }

/-- `raw_section`. -/
def rawSection (p : PEF) (index : Nat) : Except Exc (List UInt8) :=
  match p.sections[index]? with
  | some s => sectionBytes p.data s
  | none => throw .indexError

/-- `reloc_stream`. -/
def relocStream (p : PEF) (index : Nat) : Except Exc (List UInt8) :=
  match p.relocHeaders[index]?, p.loaderHeader with
  | some header, some loaderHeader =>
    let start := loaderHeader.relocInstrOffset + header.firstRelocOffset
    let stop := start + header.relocCountBlocks * 2
    if stop > p.loader.length then
      throw (.pefError s!"relocation stream {index} exceeds loader section")
    else pure (slice p.loader start stop)
  | _, _ => throw .indexError

/-- The bounds `struct.unpack_from` checks, for `size` bytes at `offset`. -/
def unpackCheck (buf : List UInt8) (offset size : Nat) : Except Exc Unit :=
  if offset ≥ 2 ^ 63 then throw .overflowError
  else if offset + size > buf.length then throw .structError
  else pure ()

theorem unpackCheck_ok {buf : List UInt8} {offset size : Nat} (hin : offset + size ≤ buf.length)
    (hoff : offset < 2 ^ 63) : unpackCheck buf offset size = .ok () := by
  unfold unpackCheck
  rw [if_neg (by omega), if_neg (by omega)]
  rfl

/-- The loop of `exports`, for `count` symbols from `index` on: the key table at `keys`, the symbol
table at `symbols`. -/
def readExports (loader : List UInt8) (strings keys symbols : Nat) :
    Nat → Nat → Dict Str (Int × Nat) → Except Exc (Dict Str (Int × Nat))
  | 0, _, exports => pure exports
  | count + 1, index, exports => do
    unpackCheck loader (keys + index * 4) 2
    let length := u16 loader (keys + index * 4)
    unpackCheck loader (keys + index * 4 + 2) 2
    unpackCheck loader (symbols + index * 10) 4
    let classAndNameOffset := u32 loader (symbols + index * 10)
    unpackCheck loader (symbols + index * 10 + 4) 4
    let value := u32 loader (symbols + index * 10 + 4)
    unpackCheck loader (symbols + index * 10 + 8) 2
    let sectionIndex := signed 16 (u16 loader (symbols + index * 10 + 8))
    let nameOffset := classAndNameOffset &&& 0xFFFFFF
    let name := decodeMacRoman
      (slice loader (strings + nameOffset) (strings + nameOffset + length))
    readExports loader strings keys symbols count (index + 1)
      (exports.set name (sectionIndex, value))

/-- `exports`: the exported names with their `(section index, offset)`. -/
def exports (p : PEF) : Except Exc (Dict Str (Int × Nat)) :=
  match p.loaderHeader with
  | none => throw .keyError
  | some header =>
    let keys := header.exportHashOffset + (1 <<< header.exportHashTablePower) * 4
    let symbols := keys + 4 * header.exportedSymbolCount
    readExports p.loader header.loaderStringsOffset keys symbols header.exportedSymbolCount 0
      .empty

end PEF

/-! ## Sections know their index -/

theorem readSections_index {data : List UInt8} : ∀ {count index : Nat} {l : List Section},
    readSections data count index = .ok l → ∀ {j : Nat} {s : Section}, l[j]? = some s →
      s.index = index + j
  | 0, _, l, h, j, s, hs => by
    cases h
    simp at hs
  | count + 1, index, l, h, j, s, hs => by
    rw [readSections] at h
    split at h
    · cases h
    · obtain ⟨rest, hr, h⟩ := bind_eq_ok h
      cases h
      cases j with
      | zero =>
        rw [List.getElem?_cons_zero, Option.some.injEq] at hs
        rw [← hs]
        rfl
      | succ j =>
        rw [List.getElem?_cons_succ] at hs
        rw [readSections_index hr hs]
        omega

/-- What an accepted container has parsed. -/
theorem PEF.init_sections {data : List UInt8} {p : PEF} (h : PEF.init data = .ok p) :
    p.data = data ∧ readSections data (u16 data 32) 0 = .ok p.sections := by
  rw [PEF.init] at h
  split at h
  · cases h
  · obtain ⟨sections, hs, h⟩ := bind_eq_ok h
    obtain ⟨loader, -, h⟩ := bind_eq_ok h
    split at h
    · cases h
      exact ⟨rfl, hs⟩
    · obtain ⟨header, -, h⟩ := bind_eq_ok h
      obtain ⟨⟨libraries, after⟩, -, h⟩ := bind_eq_ok h
      obtain ⟨⟨imports, after'⟩, -, h⟩ := bind_eq_ok h
      obtain ⟨relocHeaders, -, h⟩ := bind_eq_ok h
      cases h
      exact ⟨rfl, hs⟩

/-- **A section's index is its place in the table.** -/
theorem PEF.init_index {data : List UInt8} {p : PEF} (h : PEF.init data = .ok p) {i : Nat}
    {s : Section} (hs : p.sections[i]? = some s) : s.index = i := by
  rw [readSections_index (PEF.init_sections h).2 hs, Nat.zero_add]

theorem slice_length_le (buf : List UInt8) (start size : Nat) :
    (slice buf start (start + size)).length ≤ size := by
  rw [slice, Nat.add_sub_cancel_left]
  exact List.length_take_le _ _

theorem u16_lt (buf : List UInt8) (offset : Nat) : u16 buf offset < 2 ^ 16 :=
  lt_of_lt_of_le (beNat_lt _) (Nat.pow_le_pow_right (by omega) (slice_length_le buf offset 2))

theorem u32_lt (buf : List UInt8) (offset : Nat) : u32 buf offset < 2 ^ 32 :=
  lt_of_lt_of_le (beNat_lt _) (Nat.pow_le_pow_right (by omega) (slice_length_le buf offset 4))

/-- The section records are those of the table. -/
theorem readSections_mem {data : List UInt8} : ∀ {count index : Nat} {l : List Section},
    readSections data count index = .ok l → ∀ s ∈ l, ∃ i, s = readSection data i
  | 0, _, l, h, s, hs => by
    cases h
    cases hs
  | count + 1, index, l, h, s, hs => by
    rw [readSections] at h
    split at h
    · cases h
    · obtain ⟨rest, hr, h⟩ := bind_eq_ok h
      cases h
      rcases List.mem_cons.mp hs with rfl | hs
      · exact ⟨index, rfl⟩
      · exact readSections_mem hr s hs

/-- The sizes of a section are 32-bit fields. -/
theorem PEF.init_unpackedSize {data : List UInt8} {p : PEF} (h : PEF.init data = .ok p)
    {s : Section} (hs : s ∈ p.sections) : s.unpackedSize < 2 ^ 32 := by
  obtain ⟨i, rfl⟩ := readSections_mem (PEF.init_sections h).2 s hs
  exact u32_lt data _

/-- The stored bytes of a section of an accepted container. -/
theorem PEF.rawSection_eq {data : List UInt8} {p : PEF} (h : PEF.init data = .ok p) {s : Section}
    (hs : s ∈ p.sections) : p.rawSection s.index = sectionBytes p.data s := by
  obtain ⟨i, hi⟩ := List.mem_iff_getElem?.mp hs
  rw [PEF.rawSection, PEF.init_index h hi, hi]

end Cwhost.Pef
