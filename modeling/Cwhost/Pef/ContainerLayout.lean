import Cwhost.Pef.Container

/-!
# Decoding a PEF container undoes its layout

An abstract container (`ContainerSpec`) is a list of sections, one of them the loader section, and
what the loader section holds. `LaidOut` says where its parts sit in a file: fixed tables one after
the other, and names, streams and contents wherever the offsets lead.

* `readSections_laidOut`, `readLibraries_laidOut`, `readImports_laidOut`,
  `readRelocHeaders_laidOut`, `readExports_laidOut`: the loops, by induction over the records still
  to come.
* `init_laidOut`: **an accepted container is the one laid out**: sections, contents, entry points,
  libraries, imports, relocation streams and exports.
-/

namespace Cwhost.Pef

open Lib

/-! ## Abstract containers -/

/-- A section: the fields of its header, and what is stored. -/
structure SectionSpec where
  nameOffset : Nat
  defaultAddress : Nat
  totalSize : Nat
  unpackedSize : Nat
  kind : UInt8
  shareKind : UInt8
  alignment : UInt8
  reserved : UInt8
  contents : List UInt8

/-- An imported library; it provides the imports from `firstImportedSymbol` on. -/
structure LibrarySpec where
  name : Str
  oldImpVersion : Nat
  currentVersion : Nat
  importedSymbolCount : Nat
  firstImportedSymbol : Nat
  options : UInt8
  initOrder : UInt8
  reserved : Nat

/-- An imported symbol and the number of the library that provides it. -/
structure ImportSpec where
  name : Str
  library : Nat
  weak : Bool
  symbolClass : Nat

/-- A relocation header and its instruction stream. -/
structure RelocSpec where
  sectionIndex : Nat
  reserved : Nat
  stream : List UInt8

/-- An exported symbol. -/
structure ExportSpec where
  name : Str
  hash : Nat
  symbolClass : UInt8
  value : Nat
  section_ : Int

/-- What a loader section holds. -/
structure LoaderSpec where
  mainSection : Int
  mainOffset : Nat
  initSection : Int
  initOffset : Nat
  termSection : Int
  termOffset : Nat
  libraries : List LibrarySpec
  imports : List ImportSpec
  relocs : List RelocSpec
  exports : List ExportSpec
  exportHashTablePower : Nat

/-- A container; the section `loaderIndex` is its loader section. -/
structure ContainerSpec where
  sections : List SectionSpec
  loaderIndex : Nat
  loader : LoaderSpec

/-! ## Layouts -/

/-- A signed 32-bit field. -/
def FitsS32 (v : Int) : Prop := -2 ^ 31 ≤ v ∧ v < 2 ^ 31

/-- The word of a signed 32-bit field. -/
def word32 (v : Int) : Nat := (v % 2 ^ 32).toNat

/-- A name without NUL, terminated by one. -/
structure NameSits (loader : List UInt8) (off : Nat) (name : Str) : Prop where
  sits : ∃ raw, encodeMacRoman name = some raw ∧ Sits loader off (raw ++ [0])
  nulFree : Char.ofNat 0 ∉ name

/-- The 28-byte header of a section. -/
def sectionRecord (s : SectionSpec) (containerOffset : Nat) : List UInt8 :=
  toBE 4 s.nameOffset ++ toBE 4 s.defaultAddress ++ toBE 4 s.totalSize ++ toBE 4 s.unpackedSize ++
    toBE 4 s.contents.length ++ toBE 4 containerOffset ++ [s.kind] ++ [s.shareKind] ++
    [s.alignment] ++ [s.reserved]

/-- A section with its header at `off`. -/
structure SectionSits (data : List UInt8) (off containerOffset : Nat) (s : SectionSpec) :
    Prop where
  record : Sits data off (sectionRecord s containerOffset)
  fits : s.nameOffset < 2 ^ 32 ∧ s.defaultAddress < 2 ^ 32 ∧ s.totalSize < 2 ^ 32 ∧
    s.unpackedSize < 2 ^ 32 ∧ s.contents.length < 2 ^ 32 ∧ containerOffset < 2 ^ 32
  contents : Sits data containerOffset s.contents
  inside : containerOffset + s.contents.length ≤ data.length

/-- The 24-byte record of a library. -/
def libraryRecord (l : LibrarySpec) (nameOffset : Nat) : List UInt8 :=
  toBE 4 nameOffset ++ toBE 4 l.oldImpVersion ++ toBE 4 l.currentVersion ++
    toBE 4 l.importedSymbolCount ++ toBE 4 l.firstImportedSymbol ++ [l.options] ++
    [l.initOrder] ++ toBE 2 l.reserved

/-- The record of a library and its name lie in the loader section. -/
structure LibrarySits (loader : List UInt8) (strings off nameOffset : Nat) (l : LibrarySpec) :
    Prop where
  record : Sits loader off (libraryRecord l nameOffset)
  fits : nameOffset < 2 ^ 32 ∧ l.oldImpVersion < 2 ^ 32 ∧ l.currentVersion < 2 ^ 32 ∧
    l.importedSymbolCount < 2 ^ 32 ∧ l.firstImportedSymbol < 2 ^ 32
  name : NameSits loader (strings + nameOffset) l.name

/-- The class byte of an import; its high bit is the weak flag. -/
def ImportSpec.flags (im : ImportSpec) : UInt8 :=
  UInt8.ofNat (im.symbolClass + if im.weak then 0x80 else 0)

/-- The record of an import and its name lie in the loader section. -/
structure ImportSits (loader : List UInt8) (strings off nameOffset : Nat) (im : ImportSpec) :
    Prop where
  record : Sits loader off ([im.flags] ++ toBE 3 nameOffset)
  fits : nameOffset < 2 ^ 24 ∧ im.symbolClass < 0x80
  name : NameSits loader (strings + nameOffset) im.name

/-- A 12-byte relocation header and its stream, which is a number of 16-bit words. -/
structure RelocSits (loader : List UInt8) (instrs off start : Nat) (r : RelocSpec) : Prop where
  record : Sits loader off
    (toBE 2 r.sectionIndex ++ toBE 2 r.reserved ++ toBE 4 (r.stream.length / 2) ++ toBE 4 start)
  fits : r.sectionIndex < 2 ^ 16 ∧ r.stream.length / 2 < 2 ^ 32 ∧ start < 2 ^ 32
  whole : r.stream.length % 2 = 0
  stream : Sits loader (instrs + start) r.stream
  inside : instrs + start + r.stream.length ≤ loader.length

/-- An exported symbol with its key at `key` and its record at `symbol`. -/
structure ExportSits (loader : List UInt8) (strings key symbol nameOffset : Nat)
    (e : ExportSpec) : Prop where
  key : Sits loader key (toBE 2 e.name.length ++ toBE 2 e.hash)
  record : Sits loader symbol
    ([e.symbolClass] ++ toBE 3 nameOffset ++ toBE 4 e.value ++
      toBE 2 (e.section_ % 2 ^ 16).toNat)
  fits : e.name.length < 2 ^ 16 ∧ nameOffset < 2 ^ 24 ∧ e.value < 2 ^ 32 ∧
    -2 ^ 15 ≤ e.section_ ∧ e.section_ < 2 ^ 15
  name : ∃ raw, encodeMacRoman e.name = some raw ∧ Sits loader (strings + nameOffset) raw

/-- Where the parts of a loader section lie; names are relative to the string table, streams to
the relocation instructions. -/
structure LoaderPlaces where
  relocInstrs : Nat
  strings : Nat
  exportHash : Nat
  libraryName : Nat → Nat
  importName : Nat → Nat
  relocStart : Nat → Nat
  exportName : Nat → Nat

namespace LoaderSpec

variable (spec : LoaderSpec) (p : LoaderPlaces)

/-- The 56-byte loader header. -/
def headerRecord : List UInt8 :=
  toBE 4 (word32 spec.mainSection) ++ toBE 4 spec.mainOffset ++
    toBE 4 (word32 spec.initSection) ++ toBE 4 spec.initOffset ++
    toBE 4 (word32 spec.termSection) ++ toBE 4 spec.termOffset ++
    toBE 4 spec.libraries.length ++ toBE 4 spec.imports.length ++ toBE 4 spec.relocs.length ++
    toBE 4 p.relocInstrs ++ toBE 4 p.strings ++ toBE 4 p.exportHash ++
    toBE 4 spec.exportHashTablePower ++ toBE 4 spec.exports.length

/-- Where the import table starts: after the libraries. -/
def importTable : Nat := 56 + 24 * spec.libraries.length

/-- Where the relocation headers start: after the imports. -/
def relocTable : Nat := spec.importTable + 4 * spec.imports.length

/-- Where the export keys start: after the hash table. -/
def keyTable : Nat := p.exportHash + 2 ^ spec.exportHashTablePower * 4

/-- Where the exported symbols start: after the keys. -/
def symbolTable : Nat := spec.keyTable p + 4 * spec.exports.length

end LoaderSpec

/-- **The loader section**: `loader` holds `spec`, its parts at the places `p`. -/
structure LoaderSits (loader : List UInt8) (spec : LoaderSpec) (p : LoaderPlaces) : Prop where
  header : Sits loader 0 (spec.headerRecord p)
  sections_fit : FitsS32 spec.mainSection ∧ FitsS32 spec.initSection ∧ FitsS32 spec.termSection
  offsets_fit : spec.mainOffset < 2 ^ 32 ∧ spec.initOffset < 2 ^ 32 ∧ spec.termOffset < 2 ^ 32
  counts_fit : spec.libraries.length < 2 ^ 32 ∧ spec.imports.length < 2 ^ 32 ∧
    spec.relocs.length < 2 ^ 32 ∧ spec.exports.length < 2 ^ 32
  places_fit : p.relocInstrs < 2 ^ 32 ∧ p.strings < 2 ^ 32 ∧ p.exportHash < 2 ^ 32 ∧
    spec.exportHashTablePower < 2 ^ 32
  libraries : ∀ {i : Nat} {l : LibrarySpec}, spec.libraries[i]? = some l →
    LibrarySits loader p.strings (56 + 24 * i) (p.libraryName i) l
  imports : ∀ {i : Nat} {im : ImportSpec}, spec.imports[i]? = some im →
    ImportSits loader p.strings (spec.importTable + 4 * i) (p.importName i) im
  relocs : ∀ {i : Nat} {r : RelocSpec}, spec.relocs[i]? = some r →
    RelocSits loader p.relocInstrs (spec.relocTable + 12 * i) (p.relocStart i) r
  exports : ∀ {i : Nat} {e : ExportSpec}, spec.exports[i]? = some e →
    ExportSits loader p.strings (spec.keyTable p + i * 4) (spec.symbolTable p + i * 10)
      (p.exportName i) e
  /-- Every import is in the range of its library and of no other. -/
  provided : ∀ {i : Nat} {im : ImportSpec}, spec.imports[i]? = some im →
    im.library < spec.libraries.length ∧
      ∀ {j : Nat} {l : LibrarySpec}, spec.libraries[j]? = some l →
        ((l.firstImportedSymbol ≤ i ∧ i < l.firstImportedSymbol + l.importedSymbolCount) ↔
          j = im.library)
  exports_nodup : (spec.exports.map ExportSpec.name).Nodup

/-- **The format**: `data` holds the container `c`, the contents of its `i`-th section at
`containerOffset i` and the parts of its loader section at `p`. -/
structure LaidOut (data : List UInt8) (c : ContainerSpec) (containerOffset : Nat → Nat)
    (p : LoaderPlaces) : Prop where
  tags : Sits data 0 (PEF.joy ++ PEF.peff)
  header_inside : 40 ≤ data.length
  count : Sits data 32 (toBE 2 c.sections.length)
  count_fits : c.sections.length < 2 ^ 16
  sections : ∀ {i : Nat} {s : SectionSpec}, c.sections[i]? = some s →
    SectionSits data (40 + i * 28) (containerOffset i) s
  /-- The loader section is the first one of its kind. -/
  loader : ∃ s, c.sections[c.loaderIndex]? = some s ∧ sectionKind s.kind.toNat = .loader ∧
    (∀ {j : Nat} {s' : SectionSpec}, j < c.loaderIndex → c.sections[j]? = some s' →
      sectionKind s'.kind.toNat ≠ .loader) ∧
    LoaderSits s.contents c.loader p

/-! ## What the parser makes of the parts -/

/-- The section that the parser makes of a specified one. -/
def SectionSpec.parsed (s : SectionSpec) (index containerOffset : Nat) : Section where
  index := index
  kind := sectionKind s.kind.toNat
  defaultAddress := s.defaultAddress
  totalSize := s.totalSize
  unpackedSize := s.unpackedSize
  packedSize := s.contents.length
  containerOffset := containerOffset
  alignment := 1 <<< s.alignment.toNat

/-- The library that the parser makes of a specified one. -/
def LibrarySpec.parsed (l : LibrarySpec) (index nameOffset : Nat) : Library where
  index := index
  offset := 56 + 24 * index
  nameOffset := nameOffset
  oldImpVersion := l.oldImpVersion
  currentVersion := l.currentVersion
  importedSymbolCount := l.importedSymbolCount
  firstImportedSymbol := l.firstImportedSymbol
  options := l.options.toNat
  initBeforeClient := l.options.toNat &&& 0x80 ≠ 0
  weak := l.options.toNat &&& 0x40 ≠ 0
  name := l.name

/-- The import that the parser makes of a specified one. -/
def ImportSpec.parsed (im : ImportSpec) (libraries : List LibrarySpec) (index : Nat) :
    Import where
  index := index
  name := im.name
  library := libraries[im.library]?.map LibrarySpec.name
  weak := im.weak

/-- The loader header that the parser makes of a specified loader section. -/
def LoaderSpec.parsedHeader (spec : LoaderSpec) (p : LoaderPlaces) : LoaderHeader where
  mainSection := spec.mainSection
  mainOffset := spec.mainOffset
  initSection := spec.initSection
  initOffset := spec.initOffset
  termSection := spec.termSection
  termOffset := spec.termOffset
  importedLibraryCount := spec.libraries.length
  totalImportedSymbolCount := spec.imports.length
  relocSectionCount := spec.relocs.length
  relocInstrOffset := p.relocInstrs
  loaderStringsOffset := p.strings
  exportHashOffset := p.exportHash
  exportHashTablePower := spec.exportHashTablePower
  exportedSymbolCount := spec.exports.length

/-! ## Reading the parts -/

section Fields

variable {data : List UInt8} {off n : Nat}

theorem u16_eq (h : Sits data off (toBE 2 n)) (hn : n < 2 ^ 16) : u16 data off = n :=
  h.be_eq (w := 2) hn

theorem u32_eq (h : Sits data off (toBE 4 n)) (hn : n < 2 ^ 32) : u32 data off = n :=
  h.be_eq (w := 4) hn

theorem u8_eq {b : UInt8} (h : Sits data off [b]) : u8 data off = b.toNat := by
  rw [u8, h.getD_eq]

theorem i32_eq {v : Int} (h : Sits data off (toBE 4 (word32 v))) (hv : FitsS32 v) :
    i32 data off = v := by
  have hlt : word32 v < 2 ^ 32 := by
    have h1 := Int.emod_lt_of_pos v (show (0 : Int) < 2 ^ 32 by decide)
    have h2 := Int.emod_nonneg v (show (2 : Int) ^ 32 ≠ 0 by decide)
    unfold word32
    omega
  unfold i32
  rw [u32_eq h hlt]
  exact signed_eq (w := 32) (by decide) hv.1 hv.2

end Fields

/-- **A terminated name** is read up to its NUL. -/
theorem cstr_eq {loader : List UInt8} {off : Nat} {name : Str} (h : NameSits loader off name) :
    cstr loader off = name := by
  obtain ⟨⟨raw, hraw, hsits⟩, hnul⟩ := h
  have hlen := hsits.length_le (by simp)
  rw [List.length_append, List.length_singleton] at hlen
  have hdecode := decodeMacRoman_encode hraw
  have hzero : ∀ b ∈ raw, (b ≠ 0) = true := by
    intro b hb
    rw [eq_iff_iff, iff_true_right rfl]
    rintro rfl
    refine hnul ?_
    rw [← hdecode]
    exact List.mem_map_of_mem (f := macRomanChar) hb
  obtain ⟨rest, hrest⟩ := hsits
  unfold cstr
  rw [if_neg (by omega), ← hrest, List.append_assoc,
    List.takeWhile_append_of_pos (by simpa using hzero)]
  simp [hdecode]

theorem readSection_eq {data : List UInt8} {index containerOffset : Nat} {s : SectionSpec}
    (h : SectionSits data (40 + index * 28) containerOffset s) :
    readSection data index = s.parsed index containerOffset ∧
      40 + index * 28 + 28 ≤ data.length := by
  have hrec := h.record
  have hlen := hrec.length_le (by simp [sectionRecord])
  simp only [sectionRecord, Sits.append_iff, List.length_append, toBE_length,
    List.length_singleton, Nat.reduceAdd] at hrec hlen
  obtain ⟨⟨⟨⟨⟨⟨⟨⟨⟨-, haddr⟩, htotal⟩, hunp⟩, hpacked⟩, hoff⟩, hkind⟩, -⟩, halign⟩, -⟩ := hrec
  obtain ⟨-, h1, h2, h3, h4, h5⟩ := h.fits
  refine ⟨?_, hlen⟩
  simp only [readSection, u32_eq haddr h1, u32_eq htotal h2, u32_eq hunp h3, u32_eq hpacked h4,
    u32_eq hoff h5, u8_eq hkind, u8_eq halign]
  rfl

theorem readLibrary_eq {loader : List UInt8} {strings index nameOffset : Nat} {l : LibrarySpec}
    (h : LibrarySits loader strings (56 + 24 * index) nameOffset l) :
    readLibrary loader strings index (56 + 24 * index) = l.parsed index nameOffset ∧
      56 + 24 * index + 24 ≤ loader.length := by
  have hrec := h.record
  have hlen := hrec.length_le (by simp [libraryRecord])
  simp only [libraryRecord, Sits.append_iff, List.length_append, toBE_length,
    List.length_singleton, Nat.reduceAdd] at hrec hlen
  obtain ⟨⟨⟨⟨⟨⟨⟨hname, hold⟩, hcur⟩, hcount⟩, hfirst⟩, hoptions⟩, -⟩, -⟩ := hrec
  obtain ⟨h1, h2, h3, h4, h5⟩ := h.fits
  refine ⟨?_, hlen⟩
  simp only [readLibrary, u32_eq hname h1, u32_eq hold h2, u32_eq hcur h3, u32_eq hcount h4,
    u32_eq hfirst h5, u8_eq hoptions, cstr_eq h.name]
  rfl

/-- The weak flag is the high bit of the class byte. -/
theorem ImportSpec.flags_weak (im : ImportSpec) (h : im.symbolClass < 0x80) :
    decide (im.flags.toNat &&& 0x80 ≠ 0) = im.weak := by
  have hbits : ∀ c < 0x80, ∀ w : Bool,
      decide ((UInt8.ofNat (c + if w then 0x80 else 0)).toNat &&& 0x80 ≠ 0) = w := by
    decide +kernel
  exact hbits im.symbolClass h im.weak

theorem parseLoaderHeader_eq {loader : List UInt8} {spec : LoaderSpec} {p : LoaderPlaces}
    (h : LoaderSits loader spec p) :
    parseLoaderHeader loader = .ok (spec.parsedHeader p) := by
  have hrec := h.header
  have hlen := hrec.length_le (by simp [LoaderSpec.headerRecord, toBE])
  simp only [LoaderSpec.headerRecord, Sits.append_iff, List.length_append, toBE_length,
    Nat.reduceAdd, Nat.zero_add] at hrec hlen
  obtain ⟨⟨⟨⟨⟨⟨⟨⟨⟨⟨⟨⟨⟨h0, h4⟩, h8⟩, h12⟩, h16⟩, h20⟩, h24⟩, h28⟩, h32⟩, h36⟩, h40⟩, h44⟩, h48⟩,
    h52⟩ := hrec
  obtain ⟨hs1, hs2, hs3⟩ := h.sections_fit
  obtain ⟨ho1, ho2, ho3⟩ := h.offsets_fit
  obtain ⟨hc1, hc2, hc3, hc4⟩ := h.counts_fit
  obtain ⟨hp1, hp2, hp3, hp4⟩ := h.places_fit
  unfold parseLoaderHeader
  rw [if_neg (by omega)]
  simp only [i32_eq h0 hs1, u32_eq h4 ho1, i32_eq h8 hs2, u32_eq h12 ho2, i32_eq h16 hs3,
    u32_eq h20 ho3, u32_eq h24 hc1, u32_eq h28 hc2, u32_eq h32 hc3, u32_eq h36 hp1,
    u32_eq h40 hp2, u32_eq h44 hp3, u32_eq h48 hp4, u32_eq h52 hc4]
  rfl

/-! ## The loops -/

theorem readSections_laidOut {data : List UInt8} (ss : List SectionSpec) {index : Nat}
    {containerOffset : Nat → Nat}
    (h : ∀ {j : Nat} {s : SectionSpec}, ss[j]? = some s →
      SectionSits data (40 + (index + j) * 28) (containerOffset j) s) :
    readSections data ss.length index =
      .ok (ss.mapIdx fun j s => s.parsed (index + j) (containerOffset j)) := by
  induction ss generalizing index containerOffset with
  | nil => rfl
  | cons s ss ih =>
    obtain ⟨hread, hlen⟩ := readSection_eq (h (j := 0) rfl)
    have hrest := @ih (index + 1) (fun j => containerOffset (j + 1)) fun {j s'} hj => by
      have := h (j := j + 1) (s := s') (by simpa using hj)
      rwa [show index + (j + 1) = index + 1 + j by omega] at this
    rw [List.length_cons, readSections, if_neg (by omega), hrest, List.mapIdx_cons]
    simp only [Nat.add_zero] at hread
    show Except.ok (readSection data index :: _) = _
    rw [hread]
    simp only [Nat.add_zero, Nat.add_assoc, Nat.add_comm 1]

theorem readLibraries_laidOut {loader : List UInt8} {strings : Nat} (ls : List LibrarySpec)
    {index : Nat} {nameOffset : Nat → Nat}
    (h : ∀ {j : Nat} {l : LibrarySpec}, ls[j]? = some l →
      LibrarySits loader strings (56 + 24 * (index + j)) (nameOffset j) l) :
    readLibraries loader strings ls.length index (56 + 24 * index) =
      .ok (ls.mapIdx fun j l => l.parsed (index + j) (nameOffset j),
        56 + 24 * (index + ls.length)) := by
  induction ls generalizing index nameOffset with
  | nil => rfl
  | cons l ls ih =>
    obtain ⟨hread, hlen⟩ := readLibrary_eq (h (j := 0) rfl)
    have hrest := @ih (index + 1) (fun j => nameOffset (j + 1)) fun {j l'} hj => by
      have := h (j := j + 1) (l := l') (by simpa using hj)
      rwa [show index + (j + 1) = index + 1 + j by omega] at this
    have hnext : 56 + 24 * index + 24 = 56 + 24 * (index + 1) := by omega
    simp only [Nat.add_zero] at hread hlen
    rw [List.length_cons, readLibraries, if_neg (by omega), hnext, hrest, List.mapIdx_cons]
    show Except.ok (readLibrary loader strings index (56 + 24 * index) :: _, _) = _
    rw [hread]
    simp only [Nat.add_zero, Nat.add_assoc, Nat.add_comm 1]

/-- The one element a test holds of is the first one. -/
theorem find?_eq_of_unique {α : Type} {l : List α} {q : α → Bool} {k : Nat} {a : α}
    (hk : l[k]? = some a) (hq : ∀ {j : Nat} {b : α}, l[j]? = some b → (q b = true ↔ j = k)) :
    l.find? q = some a := by
  induction l generalizing k with
  | nil => simp at hk
  | cons b l ih =>
    cases k with
    | zero =>
      cases hk
      exact List.find?_cons_of_pos ((hq (j := 0) rfl).mpr rfl)
    | succ k =>
      have hb : ¬ q b = true := fun h => absurd ((hq (j := 0) rfl).mp h) (by omega)
      rw [List.find?_cons_of_neg hb]
      refine ih hk fun {j b'} hj => ?_
      rw [hq (j := j + 1) hj]
      omega

/-- An import with its record at `position`, among the parsed libraries. -/
theorem readImport_eq {loader : List UInt8} {strings index position nameOffset : Nat}
    {im : ImportSpec} {libraries : List LibrarySpec} {libraryName : Nat → Nat}
    (h : ImportSits loader strings position nameOffset im)
    (hlib : im.library < libraries.length)
    (hprov : ∀ {j : Nat} {l : LibrarySpec}, libraries[j]? = some l →
      ((l.firstImportedSymbol ≤ index ∧ index < l.firstImportedSymbol + l.importedSymbolCount) ↔
        j = im.library)) :
    readImport loader strings (libraries.mapIdx fun j l => l.parsed j (libraryName j)) index
        position = im.parsed libraries index ∧
      position + 4 ≤ loader.length := by
  have hrec := h.record
  have hlen := hrec.length_le (by simp)
  simp only [Sits.append_iff, List.length_append, toBE_length, List.length_singleton] at hrec hlen
  obtain ⟨hflags, hname⟩ := hrec
  have hoff : beNat (slice loader (position + 1) (position + 4)) = nameOffset :=
    hname.be_eq (w := 3) h.fits.1
  have hget := List.getElem?_eq_getElem hlib
  have hfind : (libraries.mapIdx fun j l => l.parsed j (libraryName j)).find?
      (fun library => decide (library.firstImportedSymbol ≤ index ∧
        index < library.firstImportedSymbol + library.importedSymbolCount)) =
      some (libraries[im.library].parsed im.library (libraryName im.library)) := by
    refine find?_eq_of_unique (k := im.library) ?_ fun {j b} hj => ?_
    · rw [List.getElem?_mapIdx, hget, Option.map_some]
    · rw [List.getElem?_mapIdx] at hj
      obtain ⟨l, hl, rfl⟩ := Option.map_eq_some_iff.mp hj
      rw [decide_eq_true_iff]
      exact hprov hl
  refine ⟨?_, hlen⟩
  simp only [readImport, u8_eq hflags, hoff, cstr_eq h.name, hfind, im.flags_weak h.fits.2,
    ImportSpec.parsed, hget]
  rfl

theorem readImports_laidOut {loader : List UInt8} {strings base : Nat} (ims : List ImportSpec)
    {libraries : List LibrarySpec} {libraryName : Nat → Nat} {index : Nat}
    {nameOffset : Nat → Nat}
    (h : ∀ {j : Nat} {im : ImportSpec}, ims[j]? = some im →
      ImportSits loader strings (base + 4 * (index + j)) (nameOffset j) im)
    (hprov : ∀ {i : Nat} {im : ImportSpec}, ims[i]? = some im →
      im.library < libraries.length ∧
        ∀ {j : Nat} {l : LibrarySpec}, libraries[j]? = some l →
          ((l.firstImportedSymbol ≤ index + i ∧
            index + i < l.firstImportedSymbol + l.importedSymbolCount) ↔ j = im.library)) :
    readImports loader strings (libraries.mapIdx fun j l => l.parsed j (libraryName j))
        ims.length index (base + 4 * index) =
      .ok (ims.mapIdx fun j im => im.parsed libraries (index + j),
        base + 4 * (index + ims.length)) := by
  induction ims generalizing index nameOffset with
  | nil => rfl
  | cons im ims ih =>
    obtain ⟨hlib, hrange⟩ := hprov (i := 0) rfl
    obtain ⟨hread, hlen⟩ := @readImport_eq _ _ _ _ _ _ _ libraryName (h (j := 0) rfl) hlib hrange
    have hrest := @ih (index + 1) (fun j => nameOffset (j + 1))
      (fun {j im'} hj => by
        have := @h (j + 1) im' (by simpa using hj)
        rwa [show index + (j + 1) = index + 1 + j by omega] at this)
      (fun {i im'} hi => by
        have := @hprov (i + 1) im' (by simpa using hi)
        rwa [show index + (i + 1) = index + 1 + i by omega] at this)
    have hnext : base + 4 * index + 4 = base + 4 * (index + 1) := by omega
    simp only [Nat.add_zero] at hread hlen
    rw [List.length_cons, readImports, if_neg (by omega), hnext, hrest, List.mapIdx_cons]
    show Except.ok (readImport loader strings _ index (base + 4 * index) :: _, _) = _
    rw [hread]
    simp only [Nat.add_zero, Nat.add_assoc, Nat.add_comm 1]

/-- The header of a relocation stream. -/
def RelocSpec.parsed (r : RelocSpec) (start : Nat) : RelocHeader where
  sectionIndex := r.sectionIndex
  relocCountBlocks := r.stream.length / 2
  firstRelocOffset := start

theorem readRelocHeaders_laidOut {loader : List UInt8} {instrs : Nat} (rs : List RelocSpec)
    {position : Nat} {start : Nat → Nat}
    (h : ∀ {j : Nat} {r : RelocSpec}, rs[j]? = some r →
      RelocSits loader instrs (position + 12 * j) (start j) r) :
    readRelocHeaders loader rs.length position =
      .ok (rs.mapIdx fun j r => r.parsed (start j)) := by
  induction rs generalizing position start with
  | nil => rfl
  | cons r rs ih =>
    have hr := h (j := 0) rfl
    have hrec := hr.record
    have hlen := hrec.length_le (by simp [toBE])
    simp only [Sits.append_iff, List.length_append, toBE_length, Nat.reduceAdd, Nat.mul_zero,
      Nat.add_zero] at hrec hlen
    obtain ⟨⟨⟨hsection, -⟩, hcount⟩, hstart⟩ := hrec
    obtain ⟨h1, h2, h3⟩ := hr.fits
    have hrest := @ih (position + 12) (fun j => start (j + 1)) fun {j r'} hj => by
      have := h (j := j + 1) (r := r') (by simpa using hj)
      rwa [show position + 12 * (j + 1) = position + 12 + 12 * j by omega] at this
    rw [List.length_cons, readRelocHeaders, if_neg (by omega), hrest, u16_eq hsection h1,
      u32_eq hcount h2, u32_eq hstart h3, List.mapIdx_cons]
    rfl

/-! ## Exports -/

/-- What the exports add to the dictionary. -/
def ExportSpec.item (e : ExportSpec) : Str × (Int × Nat) := (e.name, (e.section_, e.value))

namespace ExportSits

variable {loader : List UInt8} {strings key symbol nameOffset : Nat} {e : ExportSpec}

/-- The tables hold the key and the record. -/
theorem inside (h : ExportSits loader strings key symbol nameOffset e) :
    key + 4 ≤ loader.length ∧ symbol + 10 ≤ loader.length := by
  have hkey := h.key.length_le (by simp [toBE])
  have hrecord := h.record.length_le (by simp)
  simp only [List.length_append, toBE_length, List.length_singleton, Nat.reduceAdd]
    at hkey hrecord
  exact ⟨hkey, hrecord⟩

theorem nameLength (h : ExportSits loader strings key symbol nameOffset e) :
    u16 loader key = e.name.length := by
  have hkey := h.key
  rw [Sits.append_iff] at hkey
  exact u16_eq hkey.1 h.fits.1

/-- The fields of the record; the class byte and the name offset share a word. -/
theorem fields (h : ExportSits loader strings key symbol nameOffset e) :
    u32 loader symbol &&& 0xFFFFFF = nameOffset ∧ u32 loader (symbol + 4) = e.value ∧
      signed 16 (u16 loader (symbol + 8)) = e.section_ := by
  obtain ⟨h1, h2, h3, h4, h5⟩ := h.fits
  have hrecord := h.record
  rw [Sits.append_iff, Sits.append_iff] at hrecord
  simp only [List.length_append, toBE_length, List.length_singleton, Nat.reduceAdd] at hrecord
  obtain ⟨⟨hclass, hvalue⟩, hsection⟩ := hrecord
  refine ⟨?_, u32_eq hvalue h3, ?_⟩
  · have hword : u32 loader symbol = e.symbolClass.toNat * 256 ^ 3 + nameOffset := by
      unfold u32
      rw [hclass.slice_eq_of_length (by simp), List.singleton_append, beNat_cons,
        toBE_length, beNat_toBE_of_lt (by omega)]
    rw [hword, show 0xFFFFFF = 2 ^ 24 - 1 from rfl, Nat.and_two_pow_sub_one_eq_mod]
    omega
  · rw [u16_eq hsection (by omega)]
    exact signed_eq (by omega) h4 h5

theorem decoded (h : ExportSits loader strings key symbol nameOffset e) :
    decodeMacRoman (slice loader (strings + nameOffset)
      (strings + nameOffset + e.name.length)) = e.name := by
  obtain ⟨raw, hraw, hname⟩ := h.name
  rw [hname.slice_eq_of_length (encodeMacRoman_length hraw), decodeMacRoman_encode hraw]

end ExportSits

theorem readExports_laidOut {loader : List UInt8} {strings keys symbols : Nat}
    (hloader : loader.length ≤ 2 ^ 63) (es : List ExportSpec) {index : Nat}
    {nameOffset : Nat → Nat} {exports : Dict Str (Int × Nat)}
    (h : ∀ {j : Nat} {e : ExportSpec}, es[j]? = some e →
      ExportSits loader strings (keys + (index + j) * 4) (symbols + (index + j) * 10)
        (nameOffset j) e)
    (hnodup : (es.map ExportSpec.name).Nodup) (hfresh : ∀ e ∈ es, e.name ∉ exports.keys) :
    ∃ exports', PEF.readExports loader strings keys symbols es.length index exports =
        .ok exports' ∧ exports'.items = exports.items ++ es.map ExportSpec.item := by
  induction es generalizing index nameOffset exports with
  | nil => exact ⟨exports, rfl, by simp⟩
  | cons e es ih =>
    have he := h (j := 0) rfl
    rw [Nat.add_zero] at he
    obtain ⟨hkeyIn, hrecordIn⟩ := he.inside
    obtain ⟨hoffset, hvalue, hsection⟩ := he.fields
    have hnew : e.name ∉ exports.keys := hfresh e List.mem_cons_self
    rw [List.map_cons, List.nodup_cons] at hnodup
    have hkeys : (exports.set e.name (e.section_, e.value)).keys = exports.keys ++ [e.name] := by
      rw [Dict.keys, Dict.set_items_of_notMem _ hnew, List.map_append]
      rfl
    obtain ⟨exports', hrun, hitems⟩ := @ih (index + 1) (fun j => nameOffset (j + 1))
      (exports.set e.name (e.section_, e.value))
      (fun {j e'} hj => by
        have := h (j := j + 1) (e := e') (by simpa using hj)
        rwa [show index + (j + 1) = index + 1 + j by omega] at this)
      hnodup.2
      (fun e' he' hmem => by
        rw [hkeys, List.mem_append, List.mem_singleton] at hmem
        rcases hmem with hmem | hmem
        · exact hfresh e' (List.mem_cons_of_mem _ he') hmem
        · exact hnodup.1 (hmem ▸ List.mem_map_of_mem he'))
    refine ⟨exports', ?_, ?_⟩
    · rw [List.length_cons, PEF.readExports, PEF.unpackCheck_ok (by omega) (by omega),
        PEF.unpackCheck_ok (by omega) (by omega), PEF.unpackCheck_ok (by omega) (by omega),
        PEF.unpackCheck_ok (by omega) (by omega), PEF.unpackCheck_ok (by omega) (by omega)]
      simp only [hoffset, hsection, he.nameLength, hvalue, he.decoded]
      exact hrun
    · rw [hitems, Dict.set_items_of_notMem _ hnew, List.append_assoc]
      rfl

/-! ## The result -/

/-- What parsing the container is to give. -/
def ContainerSpec.parsed (c : ContainerSpec) (data loader : List UInt8)
    (containerOffset : Nat → Nat) (p : LoaderPlaces) : PEF where
  data := data
  sections := c.sections.mapIdx fun i s => s.parsed i (containerOffset i)
  loader := loader
  loaderHeader := some (c.loader.parsedHeader p)
  libraries := c.loader.libraries.mapIdx fun i l => l.parsed i (p.libraryName i)
  imports := c.loader.imports.mapIdx fun i im => im.parsed c.loader.libraries i
  relocHeaders := c.loader.relocs.mapIdx fun i r => r.parsed (p.relocStart i)

section Loader

variable {loader : List UInt8} {spec : LoaderSpec} {p : LoaderPlaces}

theorem LoaderSits.ne_nil (h : LoaderSits loader spec p) : loader ≠ [] := by
  intro hnil
  have hheader := parseLoaderHeader_eq h
  rw [hnil] at hheader
  cases hheader

theorem LoaderSits.readLibraries (h : LoaderSits loader spec p) :
    Pef.readLibraries loader p.strings spec.libraries.length 0 56 =
      .ok (spec.libraries.mapIdx fun i l => l.parsed i (p.libraryName i), spec.importTable) := by
  have hlibraries := @readLibraries_laidOut loader p.strings spec.libraries 0 p.libraryName
    fun {j l} hj => by
      have := h.libraries hj
      rwa [Nat.zero_add]
  simpa only [Nat.mul_zero, Nat.add_zero, Nat.zero_add, LoaderSpec.importTable] using hlibraries

theorem LoaderSits.readImports (h : LoaderSits loader spec p) :
    Pef.readImports loader p.strings
        (spec.libraries.mapIdx fun i l => l.parsed i (p.libraryName i)) spec.imports.length 0
        spec.importTable =
      .ok (spec.imports.mapIdx fun i im => im.parsed spec.libraries i, spec.relocTable) := by
  have himports := @readImports_laidOut loader p.strings spec.importTable spec.imports
    spec.libraries p.libraryName 0 p.importName
    (fun {j im} hj => by
      have := h.imports hj
      rwa [Nat.zero_add])
    (fun {i im} hi => by
      have := h.provided hi
      rwa [Nat.zero_add])
  simp only [Nat.mul_zero, Nat.add_zero, Nat.zero_add] at himports
  exact himports

/-- The exports, in their order. -/
theorem LoaderSits.readExports (h : LoaderSits loader spec p) (hlen : loader.length ≤ 2 ^ 63) :
    ∃ exports, PEF.readExports loader p.strings (spec.keyTable p) (spec.symbolTable p)
        spec.exports.length 0 .empty = .ok exports ∧
      exports.items = spec.exports.map ExportSpec.item := by
  obtain ⟨exports, hexports, hitems⟩ := @readExports_laidOut loader p.strings (spec.keyTable p)
    (spec.symbolTable p) hlen spec.exports 0 p.exportName .empty
    (fun {j e} hj => by
      have := h.exports hj
      rwa [Nat.zero_add])
    h.exports_nodup fun _ _ => List.not_mem_nil
  exact ⟨exports, hexports, hitems⟩

end Loader

section Whole

variable {data : List UInt8} {c : ContainerSpec} {containerOffset : Nat → Nat} {p : LoaderPlaces}

theorem LaidOut.readSections (h : LaidOut data c containerOffset p) :
    Pef.readSections data c.sections.length 0 =
      .ok (c.sections.mapIdx fun i s => s.parsed i (containerOffset i)) := by
  have hsections := @readSections_laidOut data c.sections 0 containerOffset fun {j s} hj => by
    have := h.sections hj
    rwa [Nat.zero_add]
  simpa only [Nat.zero_add] using hsections

/-- The stored bytes of every section. -/
theorem LaidOut.sectionBytes (h : LaidOut data c containerOffset p) {i : Nat} {s : SectionSpec}
    (hs : c.sections[i]? = some s) :
    Pef.sectionBytes data (s.parsed i (containerOffset i)) = .ok s.contents := by
  have hsits := h.sections hs
  have hin : ¬ containerOffset i + s.contents.length > data.length := Nat.not_lt.mpr hsits.inside
  simp only [Pef.sectionBytes, SectionSpec.parsed, if_neg hin, hsits.contents.slice_eq]
  rfl

/-- The loader section is found. -/
theorem LaidOut.loaderBytes (h : LaidOut data c containerOffset p) {ls : SectionSpec}
    (hls : c.sections[c.loaderIndex]? = some ls) (hkind : sectionKind ls.kind.toNat = .loader)
    (hfirst : ∀ {j : Nat} {s : SectionSpec}, j < c.loaderIndex → c.sections[j]? = some s →
      sectionKind s.kind.toNat ≠ .loader) :
    PEF.loaderBytes data (c.sections.mapIdx fun i s => s.parsed i (containerOffset i)) =
      .ok ls.contents := by
  have hfind : (c.sections.mapIdx fun i s => s.parsed i (containerOffset i)).find?
      (fun s => decide (s.kind = .loader)) =
      some (ls.parsed c.loaderIndex (containerOffset c.loaderIndex)) := by
    rw [List.find?_eq_some_iff_getElem]
    obtain ⟨hlt, hget⟩ := List.getElem?_eq_some_iff.mp hls
    refine ⟨decide_eq_true hkind, c.loaderIndex, by rwa [List.length_mapIdx], ?_, ?_⟩
    · rw [List.getElem_mapIdx, hget]
    · intro j hj
      rw [List.getElem_mapIdx, Bool.not_eq_true', decide_eq_false_iff_not]
      exact hfirst hj (List.getElem?_eq_getElem (by omega))
  unfold PEF.loaderBytes
  rw [hfind]
  exact h.sectionBytes hls

/-- **A container that is laid out is accepted.** -/
theorem LaidOut.init (h : LaidOut data c containerOffset p) {loader : List UInt8}
    (hbytes : PEF.loaderBytes data
      (c.sections.mapIdx fun i s => s.parsed i (containerOffset i)) = .ok loader)
    (hloader : LoaderSits loader c.loader p) :
    PEF.init data = .ok (c.parsed data loader containerOffset p) := by
  have htags := h.tags
  rw [Sits.append_iff] at htags
  have hjoy : slice data 0 4 = PEF.joy := htags.1.slice_eq_of_length rfl
  have hpeff : slice data 4 8 = PEF.peff := htags.2.slice_eq_of_length rfl
  have hcount : u16 data 32 = c.sections.length := u16_eq h.count h.count_fits
  have hrelocs := readRelocHeaders_laidOut c.loader.relocs hloader.relocs
  have h40 := h.header_inside
  unfold PEF.init
  rw [if_neg (by
    rintro (hlt | hneq | hneq)
    · omega
    · exact hneq hjoy
    · exact hneq hpeff), hcount, h.readSections]
  show (PEF.loaderBytes data _ >>= _) = _
  rw [hbytes]
  show (if loader = [] then _ else _) = _
  rw [if_neg hloader.ne_nil, parseLoaderHeader_eq hloader]
  show (Pef.readLibraries loader p.strings c.loader.libraries.length 0 56 >>= _) = _
  rw [hloader.readLibraries]
  show (Pef.readImports loader p.strings _ c.loader.imports.length 0 c.loader.importTable >>= _) = _
  rw [hloader.readImports]
  show (readRelocHeaders loader c.loader.relocs.length c.loader.relocTable >>= _) = _
  rw [hrelocs]
  rfl

/-- The relocation stream of a section. -/
theorem LoaderSits.relocStream {loader : List UInt8} (hloader : LoaderSits loader c.loader p)
    {i : Nat} {r : RelocSpec} (hr : c.loader.relocs[i]? = some r) :
    (c.parsed data loader containerOffset p).relocStream i = .ok r.stream := by
  have hsits := hloader.relocs hr
  have hin := hsits.inside
  have hwhole := hsits.whole
  have hstop : p.relocInstrs + p.relocStart i + r.stream.length / 2 * 2 =
      p.relocInstrs + p.relocStart i + r.stream.length := by omega
  unfold PEF.relocStream ContainerSpec.parsed
  simp only [List.getElem?_mapIdx, hr, Option.map_some, LoaderSpec.parsedHeader,
    RelocSpec.parsed, hstop]
  rw [if_neg (by omega), hsits.stream.slice_eq]
  rfl

end Whole

/-- **Parsing undoes the layout**: every container laid out per the format is accepted, with its
sections and their contents, its entry points, libraries, imports, relocation streams and
exports. -/
theorem init_laidOut {data : List UInt8} {c : ContainerSpec} {containerOffset : Nat → Nat}
    {p : LoaderPlaces} (h : LaidOut data c containerOffset p) :
    ∃ pef, PEF.init data = .ok pef ∧
      pef.sections = c.sections.mapIdx (fun i s => s.parsed i (containerOffset i)) ∧
      (∀ {i : Nat} {s : SectionSpec}, c.sections[i]? = some s →
        pef.rawSection i = .ok s.contents) ∧
      pef.loaderHeader = some (c.loader.parsedHeader p) ∧
      pef.libraries = c.loader.libraries.mapIdx (fun i l => l.parsed i (p.libraryName i)) ∧
      pef.imports = c.loader.imports.mapIdx (fun i im => im.parsed c.loader.libraries i) ∧
      pef.relocHeaders = c.loader.relocs.mapIdx (fun i r => r.parsed (p.relocStart i)) ∧
      (∀ {i : Nat} {r : RelocSpec}, c.loader.relocs[i]? = some r →
        pef.relocStream i = .ok r.stream) ∧
      ∃ exports, pef.exports = .ok exports ∧
        exports.items = c.loader.exports.map fun e => (e.name, (e.section_, e.value)) := by
  obtain ⟨ls, hls, hkind, hfirst, hloader⟩ := h.loader
  have hinit := h.init (h.loaderBytes hls hkind hfirst) hloader
  have hlen : ls.contents.length ≤ 2 ^ 63 := by
    have := (h.sections hls).fits
    omega
  obtain ⟨exports, hexports, hitems⟩ := hloader.readExports hlen
  refine ⟨_, hinit, rfl, fun {i s} hs => ?_, rfl, rfl, rfl, rfl,
    fun hr => hloader.relocStream hr, exports, ?_, hitems⟩
  · unfold PEF.rawSection ContainerSpec.parsed
    simp only [List.getElem?_mapIdx, hs, Option.map_some]
    exact h.sectionBytes hs
  · unfold PEF.exports ContainerSpec.parsed
    simp only [LoaderSpec.parsedHeader, Nat.one_shiftLeft]
    exact hexports

/-! ## A small container -/

/-- One library with one import, one relocation word, one export. -/
def smallLoader : LoaderSpec where
  mainSection := -1
  mainOffset := 0
  initSection := 0
  initOffset := 2
  termSection := -1
  termOffset := 0
  libraries := [⟨['L'], 0, 0, 1, 0, 0x40, 0, 0⟩]
  imports := [⟨['i'], 0, true, 2⟩]
  relocs := [⟨0, 0, [0x40, 0x00]⟩]
  exports := [⟨['e'], 0, 1, 2, -2⟩]
  exportHashTablePower := 0

/-- The tables end at 96; then the stream, the strings and the export tables. -/
def smallPlaces : LoaderPlaces where
  relocInstrs := 96
  strings := 98
  exportHash := 103
  libraryName _ := 0
  importName _ := 2
  relocStart _ := 0
  exportName _ := 4

/-- The bytes of the loader section. -/
def smallLoaderBytes : List UInt8 :=
  smallLoader.headerRecord smallPlaces ++
    [0, 0, 0, 0, 0, 0, 0, 0, 0, 0, 0, 0, 0, 0, 0, 1, 0, 0, 0, 0, 0x40, 0, 0, 0] ++
    [0x82, 0, 0, 2] ++
    [0, 0, 0, 0, 0, 0, 0, 1, 0, 0, 0, 0] ++
    [0x40, 0x00] ++
    [0x4C, 0, 0x69, 0, 0x65] ++
    [0, 0, 0, 0] ++ [0, 1, 0, 0] ++ [1, 0, 0, 4, 0, 0, 0, 2, 0xFF, 0xFE]

/-- A code section and the loader section. -/
def smallContainer : ContainerSpec where
  sections := [⟨0, 0, 4, 4, 0, 0, 4, 0, [0x4E, 0x80, 0x00, 0x20]⟩,
    ⟨0, 0, 0, 0, 4, 0, 0, 0, smallLoaderBytes⟩]
  loaderIndex := 1
  loader := smallLoader

/-- The file: the code at 96, the loader section at 100. -/
def smallFile : List UInt8 :=
  PEF.joy ++ PEF.peff ++ List.replicate 24 0 ++ [0, 2, 0, 0, 0, 0, 0, 0] ++
    smallContainer.sections.flatMap
      (fun s => sectionRecord s (if s.contents.length = 4 then 96 else 100)) ++
    smallContainer.sections.flatMap SectionSpec.contents

theorem smallLoader_sits : LoaderSits smallLoaderBytes smallLoader smallPlaces where
  header := by decide +kernel
  sections_fit := by unfold FitsS32; decide
  offsets_fit := by decide
  counts_fit := by decide
  places_fit := by decide
  libraries {i l} hl := by
    cases i with
    | zero =>
      cases hl
      exact ⟨by decide +kernel, by decide, ⟨⟨[0x4C], by decide, by decide +kernel⟩, by decide⟩⟩
    | succ i => simp [smallLoader] at hl
  imports {i im} him := by
    cases i with
    | zero =>
      cases him
      exact ⟨by decide +kernel, by decide, ⟨⟨[0x69], by decide, by decide +kernel⟩, by decide⟩⟩
    | succ i => simp [smallLoader] at him
  relocs {i r} hr := by
    cases i with
    | zero =>
      cases hr
      exact ⟨by decide +kernel, by decide, by decide, by decide +kernel, by decide +kernel⟩
    | succ i => simp [smallLoader] at hr
  exports {i e} he := by
    cases i with
    | zero =>
      cases he
      exact ⟨by decide +kernel, by decide +kernel, by decide,
        ⟨[0x65], by decide, by decide +kernel⟩⟩
    | succ i => simp [smallLoader] at he
  provided {i im} him := by
    cases i with
    | zero =>
      cases him
      refine ⟨by decide, fun {j l} hl => ?_⟩
      cases j with
      | zero =>
        cases hl
        decide
      | succ j => simp [smallLoader] at hl
    | succ i => simp [smallLoader] at him
  exports_nodup := by decide

theorem smallFile_laidOut :
    LaidOut smallFile smallContainer (fun i => if i = 0 then 96 else 100) smallPlaces where
  tags := by decide +kernel
  header_inside := by decide +kernel
  count := by decide +kernel
  count_fits := by decide
  sections {i s} hs := by
    cases i with
    | zero =>
      cases hs
      exact ⟨by decide +kernel, by decide +kernel, by decide +kernel, by decide +kernel⟩
    | succ i =>
      cases i with
      | zero =>
        cases hs
        exact ⟨by decide +kernel, by decide +kernel, by decide +kernel, by decide +kernel⟩
      | succ i => simp [smallContainer] at hs
  loader := by
    refine ⟨_, rfl, rfl, fun {j s'} hj hs' => ?_, smallLoader_sits⟩
    have h0 : j = 0 := Nat.lt_one_iff.mp hj
    subst h0
    cases hs'
    decide

theorem init_laidOut_small :
    LaidOut smallFile smallContainer (fun i => if i = 0 then 96 else 100) smallPlaces ∧
      ∃ pef, PEF.init smallFile = .ok pef ∧
        pef.imports = [⟨0, ['i'], some ['L'], true⟩] ∧ pef.relocStream 0 = .ok [0x40, 0x00] ∧
        ∃ exports, pef.exports = .ok exports ∧ exports.items = [(['e'], (-2, 2))] := by
  obtain ⟨pef, hinit, -, -, -, -, himports, -, hstream, hexports⟩ := init_laidOut smallFile_laidOut
  exact ⟨smallFile_laidOut, pef, hinit, himports, @hstream 0 ⟨0, 0, [0x40, 0x00]⟩ rfl, hexports⟩

end Cwhost.Pef
