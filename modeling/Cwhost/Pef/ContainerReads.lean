import Cwhost.Pef.Reads

/-!
# What parsing a container reads (`pef.py`, `PEF.from_bytes`)

`PEF.init` reads fields with functions that are total. Here is the parser again with every read as
the source makes it: a `struct` format or an index fails outside its byte string, a slice is noted,
and a log keeps them all. `PEF.fromBytes` is `PEF.init` with these reads in place
(`fromBytes_mirrors`), so the bounds checks of the parser come before every read: whatever the
input, the only exception is `PEFError`, and no read leaves its byte string (`fromBytes_safe`).
-/

namespace Cwhost.Pef

open Lib

/-- `isinstance(error, PEFError)`. -/
def IsPefError (e : Exc) : Prop := ∃ text, e = .pefError text

/-- `u16`. -/
def u16At (buf : List UInt8) (offset : Nat) : ReadM Exc Nat := do
  unpackFrom buf offset 2
  return u16 buf offset

/-- `u32`. -/
def u32At (buf : List UInt8) (offset : Nat) : ReadM Exc Nat := do
  unpackFrom buf offset 4
  return u32 buf offset

/-- `items[index]` of a list, where a negative index counts from the end. -/
def itemAt {α : Type} (items : List α) (index : Int) : Option α :=
  if 0 ≤ index then items[index.toNat]?
  else if -index ≤ items.length then items[(items.length + index).toNat]?
  else none

/-- `cstr`: the slice from `off` to the zero, or to the end of `buf`. -/
def cstrAt (buf : List UInt8) (off : Nat) : ReadM Exc Str :=
  if off ≥ buf.length then pure []
  else do
    let text ← sliceAt buf off (off + ((buf.drop off).takeWhile (· ≠ 0)).length)
    return decodeMacRoman text

/-- The loop over the section table. -/
def sectionsAt (data : List UInt8) : Nat → Nat → ReadM Exc (List Section)
  | 0, _ => pure []
  | count + 1, index => do
    if 40 + index * 28 + 28 > data.length then
      throw (.pefError "truncated section table")
    unpackFrom data (40 + index * 28) 28
    let rest ← sectionsAt data count (index + 1)
    return readSection data index :: rest

/-- `_section_bytes`. -/
def sectionBytesAt (data : List UInt8) (section_ : Section) : ReadM Exc (List UInt8) :=
  let stop := section_.containerOffset + section_.packedSize
  if stop > data.length then throw (.pefError s!"section {section_.index} exceeds file")
  else sliceAt data section_.containerOffset stop

/-- `loader`. -/
def loaderAt (data : List UInt8) (sections : List Section) : ReadM Exc (List UInt8) :=
  match sections.find? fun s => decide (s.kind = .loader) with
  | some s => sectionBytesAt data s
  | none => pure []

/-- `_parse_loader_header`: the fourteen fields are one format of 56 bytes. -/
def loaderHeaderAt (loader : List UInt8) : ReadM Exc LoaderHeader := do
  if loader.length < 56 then throw (.pefError "truncated loader header")
  unpackFrom loader 0 56
  MonadExcept.ofExcept (parseLoaderHeader loader)

/-- The first loop of `_parse_imports`. -/
def librariesAt (loader : List UInt8) (strings : Nat) :
    Nat → Nat → Nat → ReadM Exc (List Library × Nat)
  | 0, _, position => pure ([], position)
  | count + 1, index, position => do
    if position + 24 > loader.length then
      throw (.pefError "truncated library table")
    unpackFrom loader position 24
    let library := readLibrary loader strings index position
    let name ← cstrAt loader (strings + library.nameOffset)
    let (rest, stop) ← librariesAt loader strings count (index + 1) (position + 24)
    return ({ library with name := name } :: rest, stop)

/-- The second loop of `_parse_imports`. -/
def importsAt (loader : List UInt8) (strings : Nat) (libraries : List Library) :
    Nat → Nat → Nat → ReadM Exc (List Import × Nat)
  | 0, _, position => pure ([], position)
  | count + 1, index, position => do
    if position + 4 > loader.length then
      throw (.pefError "truncated import table")
    let flags ← byteAt loader position
    let nameOffset ← sliceAt loader (position + 1) (position + 4)
    let name ← cstrAt loader (strings + beNat nameOffset)
    let import_ : Import :=
      { readImport loader strings libraries index position with
        name := name, weak := flags &&& 0x80 ≠ 0 }
    let (rest, stop) ← importsAt loader strings libraries count (index + 1) (position + 4)
    return (import_ :: rest, stop)

/-- `_parse_reloc_headers`. -/
def relocHeadersAt (loader : List UInt8) : Nat → Nat → ReadM Exc (List RelocHeader)
  | 0, _ => pure []
  | count + 1, position => do
    if position + 12 > loader.length then
      throw (.pefError "truncated relocation header")
    unpackFrom loader position 12
    let rest ← relocHeadersAt loader count (position + 12)
    return { sectionIndex := u16 loader position
             relocCountBlocks := u32 loader (position + 4)
             firstRelocOffset := u32 loader (position + 8) } :: rest

/-- The fields of `header`, of which `sectionCount` is kept. -/
def sectionCountAt (data : List UInt8) : ReadM Exc Nat := do
  let _tag1 ← sliceAt data 0 4
  let _tag2 ← sliceAt data 4 8
  let _architecture ← sliceAt data 8 12
  let _formatVersion ← u32At data 12
  let _dateTimeStamp ← u32At data 16
  let _dateTime ← u32At data 16
  let _oldDefVersion ← u32At data 20
  let _oldImpVersion ← u32At data 24
  let _currentVersion ← u32At data 28
  let sectionCount ← u16At data 32
  let _instSectionCount ← u16At data 34
  let _reserved ← u32At data 36
  return sectionCount

namespace PEF

/-- The error of a byte string that is no container. -/
def notContainer : Exc := .pefError "not a PEF container"

/-- The tags a container starts with. -/
def checkTags (data : List UInt8) : ReadM Exc Unit :=
  if data.length < 40 then throw notContainer
  else do
    let tag1 ← sliceAt data 0 4
    if tag1 ≠ joy then throw notContainer
    else do
      let tag2 ← sliceAt data 4 8
      if tag2 ≠ peff then throw notContainer
      else pure ()

/-- `from_bytes`, read by read. -/
def fromBytes (data : List UInt8) : ReadM Exc PEF := do
  checkTags data
  let sectionCount ← sectionCountAt data
  let sections ← sectionsAt data sectionCount 0
  let loader ← loaderAt data sections
  if loader = [] then
    return { data, sections, loader, loaderHeader := none, libraries := [], imports := [],
             relocHeaders := [] }
  else
    let header ← loaderHeaderAt loader
    let strings := header.loaderStringsOffset
    let (libraries, afterLibraries) ← librariesAt loader strings header.importedLibraryCount 0 56
    let (imports, afterImports) ←
      importsAt loader strings libraries header.totalImportedSymbolCount 0 afterLibraries
    let relocHeaders ← relocHeadersAt loader header.relocSectionCount afterImports
    return { data, sections, loader, loaderHeader := some header, libraries, imports,
             relocHeaders }

/-- `raw_section`. -/
def rawSectionAt (p : PEF) (index : Int) : ReadM Exc (List UInt8) :=
  match itemAt p.sections index with
  | some s => sectionBytesAt p.data s
  | none => throw .indexError

/-- `reloc_stream`. -/
def relocStreamAt (p : PEF) (index : Int) : ReadM Exc (List UInt8) :=
  match itemAt p.relocHeaders index with
  | none => throw .indexError
  | some header =>
    match p.loaderHeader with
    | none => throw .keyError
    | some loaderHeader =>
      let start := loaderHeader.relocInstrOffset + header.firstRelocOffset
      let stop := start + header.relocCountBlocks * 2
      if stop > p.loader.length then
        throw (.pefError s!"relocation stream {index} exceeds loader section")
      else sliceAt p.loader start stop

end PEF

/-! ## The reads of one record -/

/-- `x` parses as `y` does, its reads stay inside, and it fails with `PEFError` only. -/
abbrev Parses {α : Type} (x : ReadM Exc α) (y : Except Exc α) : Prop :=
  ParsesIn IsPefError x y

theorem cstrAt_bind {α : Type} {buf : List UInt8} {off : Nat} {f : Str → ReadM Exc α}
    {y : Except Exc α} (hf : Parses (f (cstr buf off)) y) : Parses (cstrAt buf off >>= f) y := by
  rw [cstrAt]
  rw [cstr] at hf
  split
  · rw [if_pos ‹_›] at hf
    exact hf
  · rename_i hoff
    rw [if_neg hoff] at hf
    have htake : ((buf.drop off).takeWhile (· ≠ 0)).length ≤ (buf.drop off).length :=
      (List.takeWhile_prefix _).length_le
    rw [List.length_drop] at htake
    rw [bind_assoc]
    refine sliceAt_bind (Nat.le_add_right _ _) (by omega) ?_
    have hslice : slice buf off (off + ((buf.drop off).takeWhile (· ≠ 0)).length) =
        (buf.drop off).takeWhile (· ≠ 0) := by
      rw [slice, Nat.add_sub_cancel_left]
      exact (List.prefix_iff_eq_take.mp (List.takeWhile_prefix _)).symm
    rw [hslice]
    exact hf

theorem u32At_bind {α : Type} {buf : List UInt8} {offset : Nat} (h : offset + 4 ≤ buf.length)
    (hoff : offset < 2 ^ 63) {f : Nat → ReadM Exc α} {y : Except Exc α}
    (hf : Parses (f (u32 buf offset)) y) : Parses (u32At buf offset >>= f) y := by
  rw [u32At, bind_assoc]
  exact unpackFrom_bind h hoff hf

theorem u16At_bind {α : Type} {buf : List UInt8} {offset : Nat} (h : offset + 2 ≤ buf.length)
    (hoff : offset < 2 ^ 63) {f : Nat → ReadM Exc α} {y : Except Exc α}
    (hf : Parses (f (u16 buf offset)) y) : Parses (u16At buf offset >>= f) y := by
  rw [u16At, bind_assoc]
  exact unpackFrom_bind h hoff hf

theorem parses_throw {α : Type} {text : String} :
    Parses (throw (.pefError text) : ReadM Exc α) (throw (.pefError text)) :=
  Mirrors.throw ⟨text, rfl⟩

/-! ## The reads of a table -/

theorem sectionsAt_parses (data : List UInt8) : ∀ count index : Nat, index + count < 2 ^ 32 →
    Parses (sectionsAt data count index) (readSections data count index)
  | 0, _, _ => Mirrors.pure []
  | count + 1, index, hindex => by
    rw [sectionsAt, readSections]
    by_cases h : 40 + index * 28 + 28 > data.length
    · rw [if_pos h, if_pos h]
      exact parses_throw
    · rw [if_neg h, if_neg h]
      refine unpackFrom_bind (by omega) (by omega) ?_
      exact parsesIn_bind (sectionsAt_parses data count (index + 1) (by omega)) fun rest _ =>
        Mirrors.pure _

theorem sectionBytesAt_parses (data : List UInt8) (s : Section) :
    Parses (sectionBytesAt data s) (sectionBytes data s) := by
  rw [sectionBytesAt, sectionBytes]
  split
  · exact parses_throw
  · rename_i h
    rw [← bind_pure (sliceAt _ _ _)]
    exact sliceAt_bind (Nat.le_add_right _ _) (by omega) (Mirrors.pure _)

theorem loaderAt_parses (data : List UInt8) (sections : List Section) :
    Parses (loaderAt data sections) (PEF.loaderBytes data sections) := by
  rw [loaderAt, PEF.loaderBytes]
  cases sections.find? fun s => decide (s.kind = .loader) with
  | some s => exact sectionBytesAt_parses data s
  | none => exact Mirrors.pure []

theorem loaderHeaderAt_parses (loader : List UInt8) :
    Parses (loaderHeaderAt loader) (parseLoaderHeader loader) := by
  rw [loaderHeaderAt]
  by_cases h : loader.length < 56
  · rw [parseLoaderHeader, if_pos h, if_pos h]
    exact parses_throw
  · rw [if_neg h]
    refine unpackFrom_bind (by omega) (by omega) ?_
    rw [parseLoaderHeader, if_neg h]
    exact Mirrors.pure _

theorem librariesAt_parses {loader : List UInt8} (hloader : loader.length < 2 ^ 63)
    (strings : Nat) : ∀ count index position : Nat,
    Parses (librariesAt loader strings count index position)
      (readLibraries loader strings count index position)
  | 0, _, _ => Mirrors.pure _
  | count + 1, index, position => by
    rw [librariesAt, readLibraries]
    by_cases h : position + 24 > loader.length
    · rw [if_pos h, if_pos h]
      exact parses_throw
    · rw [if_neg h, if_neg h]
      refine unpackFrom_bind (by omega) (by omega) (cstrAt_bind ?_)
      exact parsesIn_bind (librariesAt_parses hloader strings count (index + 1) (position + 24))
        fun rest _ => Mirrors.pure _

theorem importsAt_parses {loader : List UInt8} (strings : Nat) (libraries : List Library) :
    ∀ count index position : Nat,
    Parses (importsAt loader strings libraries count index position)
      (readImports loader strings libraries count index position)
  | 0, _, _ => Mirrors.pure _
  | count + 1, index, position => by
    rw [importsAt, readImports]
    by_cases h : position + 4 > loader.length
    · rw [if_pos h, if_pos h]
      exact parses_throw
    · rw [if_neg h, if_neg h]
      refine byteAt_bind (by omega) (sliceAt_bind (by omega) (by omega) (cstrAt_bind ?_))
      exact parsesIn_bind (importsAt_parses strings libraries count (index + 1) (position + 4))
        fun rest _ => Mirrors.pure _

theorem relocHeadersAt_parses {loader : List UInt8} (hloader : loader.length < 2 ^ 63) :
    ∀ count position : Nat,
    Parses (relocHeadersAt loader count position) (readRelocHeaders loader count position)
  | 0, _ => Mirrors.pure _
  | count + 1, position => by
    rw [relocHeadersAt, readRelocHeaders]
    by_cases h : position + 12 > loader.length
    · rw [if_pos h, if_pos h]
      exact parses_throw
    · rw [if_neg h, if_neg h]
      refine unpackFrom_bind (by omega) (by omega) ?_
      exact parsesIn_bind (relocHeadersAt_parses hloader count (position + 12))
        fun rest _ => Mirrors.pure _

/-! ## The whole parser -/

theorem sectionCountAt_bind {α : Type} {data : List UInt8} (h : 40 ≤ data.length)
    {f : Nat → ReadM Exc α} {y : Except Exc α} (hf : Parses (f (u16 data 32)) y) :
    Parses (sectionCountAt data >>= f) y := by
  simp only [sectionCountAt, bind_assoc, pure_bind]
  refine sliceAt_bind (by omega) (by omega) (sliceAt_bind (by omega) (by omega)
    (sliceAt_bind (by omega) (by omega) ?_))
  iterate 6 refine u32At_bind (by omega) (by omega) ?_
  iterate 2 refine u16At_bind (by omega) (by omega) ?_
  exact u32At_bind (by omega) (by omega) hf

/-- The condition under which `PEF.init` refuses a byte string at once. -/
theorem checkTags_bind {α : Type} {data : List UInt8} {f : Unit → ReadM Exc α} {y : Except Exc α}
    (hf : 40 ≤ data.length → Parses (f ()) y) :
    Parses (PEF.checkTags data >>= f)
      (if data.length < 40 ∨ slice data 0 4 ≠ PEF.joy ∨ slice data 4 8 ≠ PEF.peff then
        throw PEF.notContainer else y) := by
  rw [PEF.checkTags]
  by_cases hlen : data.length < 40
  · rw [if_pos hlen, if_pos (Or.inl hlen)]
    exact parses_throw
  · rw [if_neg hlen, bind_assoc]
    refine sliceAt_bind (by omega) (by omega) ?_
    by_cases htag1 : slice data 0 4 ≠ PEF.joy
    · rw [if_pos htag1, if_pos (Or.inr (Or.inl htag1))]
      exact parses_throw
    · rw [if_neg htag1, bind_assoc]
      refine sliceAt_bind (by omega) (by omega) ?_
      by_cases htag2 : slice data 4 8 ≠ PEF.peff
      · rw [if_pos htag2, if_pos (Or.inr (Or.inr htag2))]
        exact parses_throw
      · rw [if_neg htag2, if_neg (not_or.mpr ⟨hlen, not_or.mpr ⟨htag1, htag2⟩⟩)]
        exact hf (Nat.le_of_not_lt hlen)

theorem slice_length {buf : List UInt8} {start stop : Nat} (h : stop ≤ buf.length) :
    (slice buf start stop).length = stop - start := by
  rw [slice, List.length_take, List.length_drop]
  omega

/-- The stored bytes of a section are the bytes of the container its record locates. -/
theorem sectionBytes_eq {data bytes : List UInt8} {s : Section}
    (h : sectionBytes data s = .ok bytes) :
    bytes = slice data s.containerOffset (s.containerOffset + s.packedSize) ∧
      bytes.length = s.packedSize := by
  rw [sectionBytes] at h
  split at h
  · cases h
  · cases h
    refine ⟨rfl, ?_⟩
    rw [slice_length (by omega), Nat.add_sub_cancel_left]

/-- A loader section is no longer than its 32-bit size field says. -/
theorem loaderBytes_length {data loader : List UInt8} {count index : Nat} {l : List Section}
    (hs : readSections data count index = .ok l) (h : PEF.loaderBytes data l = .ok loader) :
    loader.length < 2 ^ 32 := by
  rw [PEF.loaderBytes] at h
  cases hfind : l.find? fun s => decide (s.kind = .loader) with
  | none =>
    rw [hfind] at h
    cases h
    exact Nat.two_pow_pos 32
  | some s =>
    rw [hfind] at h
    obtain ⟨i, rfl⟩ := readSections_mem hs s (List.mem_of_find?_eq_some hfind)
    rw [(sectionBytes_eq h).2]
    exact u32_lt data _

/-- **The parser with its reads is the parser.** -/
theorem fromBytes_parses (data : List UInt8) : Parses (PEF.fromBytes data) (PEF.init data) := by
  rw [PEF.fromBytes, PEF.init]
  refine checkTags_bind fun hlen => sectionCountAt_bind hlen ?_
  refine parsesIn_bind (sectionsAt_parses data _ 0 ?_) fun sections hs => ?_
  · have := u16_lt data 32
    omega
  refine parsesIn_bind (loaderAt_parses data sections) fun loader hl => ?_
  have hloader : loader.length < 2 ^ 63 := by
    have := loaderBytes_length hs hl
    omega
  by_cases hempty : loader = []
  · rw [if_pos hempty, if_pos hempty]
    exact Mirrors.pure _
  · rw [if_neg hempty, if_neg hempty]
    refine parsesIn_bind (loaderHeaderAt_parses loader) fun header _ => ?_
    refine parsesIn_bind (librariesAt_parses hloader _ _ _ _) fun libraries _ => ?_
    refine parsesIn_bind (importsAt_parses _ _ _ _ _) fun imports _ => ?_
    exact parsesIn_bind (relocHeadersAt_parses hloader _ _) fun relocHeaders _ => Mirrors.pure _

/-! ## What an accepted container holds -/

theorem readSections_length {data : List UInt8} : ∀ {count index : Nat} {l : List Section},
    readSections data count index = .ok l → l.length = count
  | 0, _, l, h => by
    cases h
    rfl
  | count + 1, index, l, h => by
    rw [readSections] at h
    split at h
    · cases h
    · obtain ⟨rest, hr, h⟩ := bind_eq_ok h
      cases h
      rw [List.length_cons, readSections_length hr]

theorem readImports_length {loader : List UInt8} {strings : Nat} {libraries : List Library} :
    ∀ {count index position stop : Nat} {l : List Import},
    readImports loader strings libraries count index position = .ok (l, stop) → l.length = count
  | 0, _, _, _, l, h => by
    cases h
    rfl
  | count + 1, index, position, stop, l, h => by
    rw [readImports] at h
    split at h
    · cases h
    · obtain ⟨⟨rest, after⟩, hr, h⟩ := bind_eq_ok h
      cases h
      rw [List.length_cons, readImports_length hr]

theorem readRelocHeaders_length {loader : List UInt8} : ∀ {count position : Nat}
    {l : List RelocHeader}, readRelocHeaders loader count position = .ok l → l.length = count
  | 0, _, l, h => by
    cases h
    rfl
  | count + 1, position, l, h => by
    rw [readRelocHeaders] at h
    split at h
    · cases h
    · obtain ⟨rest, hr, h⟩ := bind_eq_ok h
      cases h
      rw [List.length_cons, readRelocHeaders_length hr]

/-- Without loader bytes there is no loader header and no relocation header; with them there are
as many imports and relocation headers as the loader header says. -/
theorem PEF.init_loader {data : List UInt8} {p : PEF} (h : PEF.init data = .ok p) :
    PEF.loaderBytes data p.sections = .ok p.loader ∧
      (p.loader = [] → p.loaderHeader = none ∧ p.relocHeaders = []) ∧
      (p.loader ≠ [] → ∃ header, p.loaderHeader = some header ∧
        p.imports.length = header.totalImportedSymbolCount ∧
        p.relocHeaders.length = header.relocSectionCount) := by
  rw [PEF.init] at h
  split at h
  · cases h
  · obtain ⟨sections, -, h⟩ := bind_eq_ok h
    obtain ⟨loader, hl, h⟩ := bind_eq_ok h
    split at h
    · cases h
      exact ⟨hl, fun _ => ⟨rfl, rfl⟩, fun hne => absurd ‹_› hne⟩
    · obtain ⟨header, -, h⟩ := bind_eq_ok h
      obtain ⟨⟨libraries, after⟩, -, h⟩ := bind_eq_ok h
      obtain ⟨⟨imports, after'⟩, hi, h⟩ := bind_eq_ok h
      obtain ⟨relocHeaders, hr, h⟩ := bind_eq_ok h
      cases h
      exact ⟨hl, fun hempty => absurd hempty ‹_›,
        fun _ => ⟨header, rfl, readImports_length hi, readRelocHeaders_length hr⟩⟩

/-- The valid indices of a list are those from minus its length up to its length. -/
theorem itemAt_eq_some_iff {α : Type} {items : List α} {index : Int} :
    (∃ a, itemAt items index = some a) ↔ -items.length ≤ index ∧ index < items.length := by
  rw [itemAt]
  split
  · rw [← Option.isSome_iff_exists, isSome_getElem?]
    omega
  · split
    · rw [← Option.isSome_iff_exists, isSome_getElem?]
      omega
    · constructor
      · rintro ⟨a, ha⟩
        cases ha
      · omega

/-- `x` ends with a result in `Q` or with a `PEFError`, and reads nothing outside. -/
def Clean {α : Type} (x : ReadM Exc α) (Q : α → Prop) : Prop :=
  CleanIn IsPefError x Q

/-- What a parser that follows a plain one does. -/
theorem Clean.of_parses {α : Type} {x : ReadM Exc α} {y : Except Exc α} {Q : α → Prop}
    (hx : Parses x y) (hQ : ∀ a, y = .ok a → Q a) : Clean x Q :=
  cleanIn_of_parses hx hQ

/-- `raw_section` at a valid index. -/
theorem PEF.rawSectionAt_clean (p : PEF) {index : Int} {s : Section}
    (hs : itemAt p.sections index = some s) :
    Clean (p.rawSectionAt index) fun bytes =>
      bytes = slice p.data s.containerOffset (s.containerOffset + s.packedSize) ∧
        bytes.length = s.packedSize := by
  rw [PEF.rawSectionAt, hs]
  exact Clean.of_parses (sectionBytesAt_parses p.data s) fun _ h => sectionBytes_eq h

/-- `reloc_stream` at a valid index. -/
theorem PEF.relocStreamAt_clean (p : PEF) {index : Int} {header : RelocHeader}
    {loaderHeader : LoaderHeader} (hheader : itemAt p.relocHeaders index = some header)
    (hloader : p.loaderHeader = some loaderHeader) :
    Clean (p.relocStreamAt index) fun bytes =>
      bytes = slice p.loader (loaderHeader.relocInstrOffset + header.firstRelocOffset)
        (loaderHeader.relocInstrOffset + header.firstRelocOffset + header.relocCountBlocks * 2) ∧
        bytes.length = 2 * header.relocCountBlocks := by
  rw [PEF.relocStreamAt, hheader, hloader]
  dsimp only
  split
  · exact ⟨⟨_, rfl⟩, allInside_nil⟩
  · rename_i hstop
    refine ⟨⟨rfl, ?_⟩, allInside_cons.mpr ⟨⟨Nat.le_add_right _ _, Nat.le_of_not_lt hstop⟩,
      allInside_nil⟩⟩
    rw [slice_length (Nat.le_of_not_lt hstop)]
    omega

/-- **Parsing is safe on every input.** From any byte string the parser ends with a container or
with a `PEFError`, and reads only inside its byte strings. The loader bytes are those of the
container's loader section. The tables of a container are as long as its headers say, and so are the
bytes of a section and of a relocation stream at a valid index. -/
theorem PEF.fromBytes_safe (data : List UInt8) :
    Clean (PEF.fromBytes data) fun p =>
      p.sections.length = u16 data 32 ∧ PEF.loaderBytes data p.sections = .ok p.loader ∧
      (p.loader ≠ [] → ∃ header, p.loaderHeader = some header ∧
        p.imports.length = header.totalImportedSymbolCount ∧
        p.relocHeaders.length = header.relocSectionCount) ∧
      (∀ index : Int, -p.sections.length ≤ index → index < p.sections.length →
        ∃ s, itemAt p.sections index = some s ∧
          Clean (p.rawSectionAt index) fun bytes =>
            bytes = slice data s.containerOffset (s.containerOffset + s.packedSize) ∧
              bytes.length = s.packedSize) ∧
      (∀ index : Int, -p.relocHeaders.length ≤ index → index < p.relocHeaders.length →
        ∃ header loaderHeader, itemAt p.relocHeaders index = some header ∧
          p.loaderHeader = some loaderHeader ∧
          Clean (p.relocStreamAt index) fun bytes =>
            bytes = slice p.loader (loaderHeader.relocInstrOffset + header.firstRelocOffset)
              (loaderHeader.relocInstrOffset + header.firstRelocOffset
                + header.relocCountBlocks * 2) ∧
              bytes.length = 2 * header.relocCountBlocks) := by
  refine Clean.of_parses (fromBytes_parses data) fun p hp => ?_
  obtain ⟨rfl, hsections⟩ := PEF.init_sections hp
  obtain ⟨hbytes, hempty, hloader⟩ := PEF.init_loader hp
  refine ⟨readSections_length hsections, hbytes, hloader, ?_, ?_⟩
  · intro index hlow hhigh
    obtain ⟨s, hs⟩ := itemAt_eq_some_iff.mpr ⟨hlow, hhigh⟩
    exact ⟨s, hs, p.rawSectionAt_clean hs⟩
  · intro index hlow hhigh
    obtain ⟨header, hheader⟩ := itemAt_eq_some_iff.mpr ⟨hlow, hhigh⟩
    have hne : p.loader ≠ [] := by
      intro h
      rw [(hempty h).2, List.length_nil] at hlow hhigh
      omega
    obtain ⟨loaderHeader, hl, -⟩ := hloader hne
    exact ⟨header, loaderHeader, hheader, hl, p.relocStreamAt_clean hheader hl⟩

end Cwhost.Pef
