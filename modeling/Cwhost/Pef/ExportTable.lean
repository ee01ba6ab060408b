import Cwhost.Pef.ContainerReads

/-!
# Malformed export tables (`pef.py`, `PEF.exports`)

`exports` reads the key table and the symbol table without the bounds checks its siblings make, and
cuts a name at the end of the loader section.

* `readExports_ok_iff`: it returns exactly when both tables lie in the loader section, and then
  what it returns is `exportMap`; otherwise the exception is one of `struct.unpack_from`.
* `ExportsClean`: what a clean rejection would be. `exportsClean_iff`: when the code is clean.
-/

namespace Cwhost.Pef

open Lib

namespace LoaderHeader

/-- `key_offset`. -/
def keyTable (header : LoaderHeader) : Nat :=
  header.exportHashOffset + (1 <<< header.exportHashTablePower) * 4

/-- `symbols_offset`. -/
def symbolTable (header : LoaderHeader) : Nat := header.keyTable + 4 * header.exportedSymbolCount

end LoaderHeader

section Symbols

variable (loader : List UInt8) (strings keys symbols : Nat)

/-- `length`, from the key record of symbol `index`. -/
def exportLength (index : Nat) : Nat := u16 loader (keys + index * 4)

/-- The stored name of symbol `index`, cut at the end of the loader section. -/
def exportNameBytes (index : Nat) : List UInt8 :=
  let nameOffset := u32 loader (symbols + index * 10) &&& 0xFFFFFF
  slice loader (strings + nameOffset) (strings + nameOffset + exportLength loader keys index)

/-- The name is as long as its key record says. -/
def NameWhole (index : Nat) : Prop :=
  (exportNameBytes loader strings keys symbols index).length = exportLength loader keys index

/-- `name`. -/
def exportName (index : Nat) : Str :=
  decodeMacRoman (exportNameBytes loader strings keys symbols index)

/-- `(section_index, value)`. -/
def exportValue (index : Nat) : Int × Nat :=
  (signed 16 (u16 loader (symbols + index * 10 + 8)), u32 loader (symbols + index * 10 + 4))

/-- The key record and the symbol record of `index` lie in the loader section. -/
def RecordInside (index : Nat) : Prop :=
  keys + index * 4 + 4 ≤ loader.length ∧ symbols + index * 10 + 10 ≤ loader.length

/-- The reads of one pass of the loop of `exports`. -/
def checkRecord (index : Nat) : Except Exc Unit := do
  PEF.unpackCheck loader (keys + index * 4) 2
  PEF.unpackCheck loader (keys + index * 4 + 2) 2
  PEF.unpackCheck loader (symbols + index * 10) 4
  PEF.unpackCheck loader (symbols + index * 10 + 4) 4
  PEF.unpackCheck loader (symbols + index * 10 + 8) 2

/-- The map of `count` symbols from `index` on, entered in `exports`. -/
def exportMap : Nat → Nat → Dict Str (Int × Nat) → Dict Str (Int × Nat)
  | 0, _, exports => exports
  | count + 1, index, exports =>
    exportMap count (index + 1)
      (exports.set (exportName loader strings keys symbols index)
        (exportValue loader symbols index))

end Symbols

variable {loader : List UInt8} {strings keys symbols : Nat}

/-- One pass of the loop: the reads, then the entry. -/
theorem readExports_succ (count index : Nat) (exports : Dict Str (Int × Nat)) :
    PEF.readExports loader strings keys symbols (count + 1) index exports =
      checkRecord loader keys symbols index >>= fun _ =>
        PEF.readExports loader strings keys symbols count (index + 1)
          (exports.set (exportName loader strings keys symbols index)
            (exportValue loader symbols index)) := by
  simp only [checkRecord, bind_assoc]
  rfl

/-- The exceptions of `struct.unpack_from`. -/
def IsUnpackError (e : Exc) : Prop := e = .overflowError ∨ e = .structError

theorem unpackCheck_error {buf : List UInt8} {offset size : Nat} {e : Exc}
    (h : PEF.unpackCheck buf offset size = .error e) : IsUnpackError e := by
  rw [PEF.unpackCheck] at h
  split at h
  · cases h
    exact Or.inl rfl
  · split at h
    · cases h
      exact Or.inr rfl
    · cases h

theorem unpackCheck_ok_iff {buf : List UInt8} {offset size : Nat} (hsize : 0 < size)
    (hbuf : buf.length ≤ 2 ^ 63) :
    PEF.unpackCheck buf offset size = .ok () ↔ offset + size ≤ buf.length := by
  constructor
  · intro h
    unfold PEF.unpackCheck at h
    split at h
    · cases h
    · split at h
      · cases h
      · omega
  · intro h
    exact PEF.unpackCheck_ok h (by omega)

/-- An exception of a sequence comes from one of its parts. -/
theorem bind_eq_error {ε α β : Type} {x : Except ε α} {f : α → Except ε β} {e : ε}
    (h : x >>= f = .error e) : x = .error e ∨ ∃ a, x = .ok a ∧ f a = .error e := by
  cases x with
  | ok a => exact Or.inr ⟨a, rfl, h⟩
  | error e' =>
    cases h
    exact Or.inl rfl

theorem checkRecord_error {index : Nat} {e : Exc}
    (h : checkRecord loader keys symbols index = .error e) : IsUnpackError e := by
  rw [checkRecord] at h
  iterate 4
    obtain h | ⟨_, -, h⟩ := bind_eq_error h
    · exact unpackCheck_error h
  exact unpackCheck_error h

theorem checkRecord_ok_iff (hloader : loader.length ≤ 2 ^ 63) {index : Nat} :
    checkRecord loader keys symbols index = .ok () ↔ RecordInside loader keys symbols index := by
  rw [checkRecord, RecordInside]
  constructor
  · intro h
    obtain ⟨_, -, h⟩ := bind_eq_ok h
    obtain ⟨_, hkey, h⟩ := bind_eq_ok h
    obtain ⟨_, -, h⟩ := bind_eq_ok h
    obtain ⟨_, -, h⟩ := bind_eq_ok h
    have hkey' := (unpackCheck_ok_iff (by omega) hloader).mp hkey
    have hsymbol := (unpackCheck_ok_iff (by omega) hloader).mp h
    omega
  · rintro ⟨hkey, hsymbol⟩
    rw [(unpackCheck_ok_iff (by omega) hloader).mpr (by omega : keys + index * 4 + 2 ≤ _),
      (unpackCheck_ok_iff (by omega) hloader).mpr (by omega : keys + index * 4 + 2 + 2 ≤ _),
      (unpackCheck_ok_iff (by omega) hloader).mpr (by omega : symbols + index * 10 + 4 ≤ _),
      (unpackCheck_ok_iff (by omega) hloader).mpr (by omega : symbols + index * 10 + 4 + 4 ≤ _)]
    exact (unpackCheck_ok_iff (by omega) hloader).mpr (by omega)

/-- The only exceptions of the loop are those of `struct.unpack_from`. -/
theorem readExports_error {e : Exc} : ∀ {count index : Nat} {exports : Dict Str (Int × Nat)},
    PEF.readExports loader strings keys symbols count index exports = .error e → IsUnpackError e
  | 0, _, _, h => by cases h
  | count + 1, index, exports, h => by
    rw [readExports_succ] at h
    obtain h | ⟨_, -, h⟩ := bind_eq_error h
    · exact checkRecord_error h
    · exact readExports_error h

/-- **When the loop returns, and what.** -/
theorem readExports_ok_iff (hloader : loader.length ≤ 2 ^ 63) {d : Dict Str (Int × Nat)} :
    ∀ {count index : Nat} {exports : Dict Str (Int × Nat)},
      PEF.readExports loader strings keys symbols count index exports = .ok d ↔
        (∀ i, i < count → RecordInside loader keys symbols (index + i)) ∧
          d = exportMap loader strings keys symbols count index exports
  | 0, index, exports => by
    constructor
    · intro h
      cases h
      exact ⟨fun i hi => absurd hi (Nat.not_lt_zero i), rfl⟩
    · rintro ⟨-, rfl⟩
      rfl
  | count + 1, index, exports => by
    rw [readExports_succ]
    constructor
    · intro h
      obtain ⟨_, hcheck, h⟩ := bind_eq_ok h
      obtain ⟨hinside, hd⟩ := (readExports_ok_iff hloader).mp h
      refine ⟨fun i hi => ?_, hd⟩
      cases i with
      | zero => exact (checkRecord_ok_iff hloader).mp hcheck
      | succ i =>
        have := hinside i (by omega)
        rwa [show index + 1 + i = index + (i + 1) by omega] at this
    · rintro ⟨hinside, rfl⟩
      have hcheck := (checkRecord_ok_iff hloader).mpr (hinside 0 (by omega))
      rw [Nat.add_zero] at hcheck
      rw [hcheck]
      refine (readExports_ok_iff hloader).mpr ⟨fun i hi => ?_, rfl⟩
      rw [show index + 1 + i = index + (i + 1) by omega]
      exact hinside (i + 1) (by omega)

/-! ## The map -/

/-- Where an entry of the map comes from. -/
theorem exportMap_get? {name : Str} {v : Int × Nat} :
    ∀ {count index : Nat} {exports : Dict Str (Int × Nat)},
      (exportMap loader strings keys symbols count index exports).get? name = some v →
        exports.get? name = some v ∨
          ∃ i < count, name = exportName loader strings keys symbols (index + i) ∧
            v = exportValue loader symbols (index + i)
  | 0, _, _, h => Or.inl h
  | count + 1, index, exports, h => by
    rw [exportMap] at h
    obtain h | ⟨i, hi, hname, hv⟩ := exportMap_get? h
    · rw [Dict.get?_set] at h
      split at h
      · rename_i hname
        cases h
        exact Or.inr ⟨0, by omega, hname, rfl⟩
      · exact Or.inl h
    · rw [show index + 1 + i = index + (i + 1) by omega] at hname hv
      exact Or.inr ⟨i + 1, by omega, hname, hv⟩

/-- An entry stays, with this or a later value. -/
theorem exportMap_keeps {name : Str} :
    ∀ {count index : Nat} {exports : Dict Str (Int × Nat)} {v : Int × Nat},
      exports.get? name = some v →
        ∃ v', (exportMap loader strings keys symbols count index exports).get? name = some v'
  | 0, _, _, v, h => ⟨v, h⟩
  | count + 1, index, exports, v, h => by
    rw [exportMap]
    by_cases hname : name = exportName loader strings keys symbols index
    · rw [hname]
      exact exportMap_keeps (Dict.get?_set_self _ _ _)
    · exact exportMap_keeps ((Dict.get?_set_of_ne _ _ hname).trans h)

/-- Every symbol has entered its name. -/
theorem exportMap_name : ∀ {count index i : Nat} {exports : Dict Str (Int × Nat)}, i < count →
    ∃ v, (exportMap loader strings keys symbols count index exports).get?
      (exportName loader strings keys symbols (index + i)) = some v
  | 0, _, i, _, hi => absurd hi (Nat.not_lt_zero i)
  | count + 1, index, i, exports, hi => by
    rw [exportMap]
    cases i with
    | zero => exact exportMap_keeps (Dict.get?_set_self _ _ _)
    | succ i =>
      rw [show index + (i + 1) = index + 1 + i by omega]
      exact exportMap_name (by omega)

theorem decodeMacRoman_injective {bs bs' : List UInt8}
    (h : decodeMacRoman bs = decodeMacRoman bs') :
    bs = bs' := by
  have henc := congrArg encodeMacRoman h
  rw [encode_decodeMacRoman, encode_decodeMacRoman, Option.some.injEq] at henc
  exact henc

/-! ## Clean rejection -/

/-- `exports` raises `PEFError`, or returns a map in which every name is a stored name in full and
every value was read inside the loader section. -/
def PEF.ExportsClean (p : PEF) : Prop :=
  (∃ text, p.exports = .error (.pefError text)) ∨
  ∃ header d, p.loaderHeader = some header ∧ p.exports = .ok d ∧
    ∀ name v, d.get? name = some v →
      (∃ i < header.exportedSymbolCount,
        NameWhole p.loader header.loaderStringsOffset header.keyTable header.symbolTable i ∧
        name = exportName p.loader header.loaderStringsOffset header.keyTable
          header.symbolTable i) ∧
      ∃ i < header.exportedSymbolCount, v = exportValue p.loader header.symbolTable i ∧
        RecordInside p.loader header.keyTable header.symbolTable i

/-- There is a loader header, the key and symbol records of its exports lie in the loader section,
and a stored name that the end of the section cuts short is also the whole name of some symbol. -/
def PEF.ExportsFit (p : PEF) : Prop :=
  ∃ header, p.loaderHeader = some header ∧
    (∀ i < header.exportedSymbolCount,
      RecordInside p.loader header.keyTable header.symbolTable i) ∧
    ∀ i < header.exportedSymbolCount, ∃ j < header.exportedSymbolCount,
      NameWhole p.loader header.loaderStringsOffset header.keyTable header.symbolTable j ∧
      exportNameBytes p.loader header.loaderStringsOffset header.keyTable header.symbolTable j =
        exportNameBytes p.loader header.loaderStringsOffset header.keyTable header.symbolTable i

theorem PEF.exports_eq {p : PEF} {header : LoaderHeader} (h : p.loaderHeader = some header) :
    p.exports = PEF.readExports p.loader header.loaderStringsOffset header.keyTable
      header.symbolTable header.exportedSymbolCount 0 .empty := by
  rw [PEF.exports, h]
  rfl

/-- `exports` never raises a `PEFError`. -/
theorem PEF.exports_error {p : PEF} {e : Exc} (h : p.exports = .error e) : ¬IsPefError e := by
  rintro ⟨text, rfl⟩
  cases hheader : p.loaderHeader with
  | none =>
    rw [PEF.exports, hheader] at h
    cases h
  | some header =>
    rw [PEF.exports_eq hheader] at h
    rcases readExports_error h with h | h <;> cases h

/-- **Exactly when `exports` is clean**: when its tables fit the loader section and no name is cut,
or only names that are also there in full. It rejects nothing itself. -/
theorem PEF.exportsClean_iff {data : List UInt8} {p : PEF} (h : PEF.init data = .ok p) :
    p.ExportsClean ↔ p.ExportsFit := by
  have hloader : p.loader.length ≤ 2 ^ 63 := by
    have := loaderBytes_length (PEF.init_sections h).2 (PEF.init_loader h).1
    omega
  constructor
  · rintro (⟨text, herror⟩ | ⟨header, d, hheader, hd, hclean⟩)
    · exact absurd ⟨text, rfl⟩ (PEF.exports_error herror)
    · rw [PEF.exports_eq hheader, readExports_ok_iff hloader] at hd
      obtain ⟨hinside, rfl⟩ := hd
      simp only [Nat.zero_add] at hinside
      refine ⟨header, hheader, hinside, fun i hi => ?_⟩
      obtain ⟨v, hv⟩ := exportMap_name hi
      obtain ⟨⟨j, hj, hwhole, hname⟩, -⟩ := hclean _ v hv
      rw [Nat.zero_add] at hname
      exact ⟨j, hj, hwhole, (decodeMacRoman_injective hname).symm⟩
  · rintro ⟨header, hheader, hinside, hnames⟩
    have hexports : p.exports = .ok (exportMap p.loader header.loaderStringsOffset header.keyTable
        header.symbolTable header.exportedSymbolCount 0 .empty) := by
      rw [PEF.exports_eq hheader, readExports_ok_iff hloader]
      simp only [Nat.zero_add]
      exact ⟨hinside, trivial⟩
    refine Or.inr ⟨header, _, hheader, hexports, fun name v hv => ?_⟩
    obtain hv | ⟨i, hi, rfl, rfl⟩ := exportMap_get? hv
    · cases hv
    · rw [Nat.zero_add]
      obtain ⟨j, hj, hwhole, hbytes⟩ := hnames i hi
      refine ⟨⟨j, hj, hwhole, ?_⟩, i, hi, rfl, hinside i hi⟩
      rw [exportName, exportName, hbytes]

/-- A container whose loader section exports one name. -/
def oneExport : List UInt8 :=
  PEF.joy ++ PEF.peff ++ List.replicate 24 0 ++ [0, 1, 0, 0, 0, 0, 0, 0] ++
    (List.replicate 16 0 ++ [0, 0, 0, 74, 0, 0, 0, 68, 4, 0, 0, 0]) ++
    (List.replicate 47 0 ++ [56, 0, 0, 0, 0, 0, 0, 0, 1]) ++
    [0, 0, 0, 0] ++ [0, 1, 0, 0] ++ [0, 0, 0, 47, 0, 0, 0, 2, 0, 1]

theorem exportsClean_iff_oneExport :
    ∃ p, PEF.init oneExport = .ok p ∧ (p.ExportsClean ↔ p.ExportsFit) ∧
      p.exports.toOption.map Dict.items = some [(['8'], (1, 2))] := by
  have hrun : (PEF.init oneExport).toOption.map (fun p => p.exports.toOption.map Dict.items) =
      some (some [(['8'], (1, 2))]) := by decide +kernel
  cases hinit : PEF.init oneExport with
  | error e =>
    rw [hinit] at hrun
    cases hrun
  | ok p =>
    rw [hinit] at hrun
    exact ⟨p, rfl, PEF.exportsClean_iff hinit, Option.some.inj hrun⟩

/-- A container without sections. -/
def bareContainer : List UInt8 := PEF.joy ++ PEF.peff ++ List.replicate 32 0

/-- A container without a loader section is accepted, and its `exports` raises `KeyError`. -/
theorem exports_bareContainer :
    ∃ p, PEF.init bareContainer = .ok p ∧ p.exports = .error .keyError ∧ ¬p.ExportsClean := by
  have hinit : PEF.init bareContainer = .ok
      { data := bareContainer, sections := [], loader := [], loaderHeader := none,
        libraries := [], imports := [], relocHeaders := [] } := by decide +kernel
  refine ⟨_, hinit, rfl, ?_⟩
  rintro (⟨text, h⟩ | ⟨header, d, h, -⟩) <;> cases h

end Cwhost.Pef
