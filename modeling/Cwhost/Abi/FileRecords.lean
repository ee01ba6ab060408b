import Cwhost.Abi.Records
import Cwhost.Abi.RoundTrip

/-!
# The records of the File Manager (`abi.py`)

`FSSpec` and `FSCatalogInfo`, and what it takes to pack them and the records of `Abi.Records` that
hold a name or a file.

* `Struct.init_onAscii`: the layouts of declarations in ASCII do not depend on the numerals.
* `cwFileSpec_built`, `fsSpec_built`, `fsCatalogInfo_built`: the records are built.
* `fsSpecItems_canonical_iff`: a FSSpec can be packed exactly if its name fills the 64 bytes.
-/

namespace Cwhost

open Lib

/-! ## Declarations in ASCII -/

/-- What is used of numerals: on ASCII they are the ASCII ones. -/
structure Numerals.OnAscii (py : Numerals) : Prop where
  isDecimal : ∀ c : Char, c.toNat < 128 → py.isDecimal c = asciiNumerals.isDecimal c
  int : ∀ text, text ≠ [] → (∀ c ∈ text, asciiNumerals.isDecimal c = true) →
    py.int text = asciiNumerals.int text

theorem asciiNumerals_onAscii : asciiNumerals.OnAscii := ⟨fun _ _ => rfl, fun _ _ _ => rfl⟩

/-- The types are declared in ASCII. -/
def asciiFields (fields : List (Str × FieldType Struct)) : Bool :=
  fields.all fun field =>
    match field.2 with
    | .text declared => declared.all fun c => decide (c.toNat < 128)
    | .struct _ => true

section Ascii

variable {py : Numerals}

theorem takeWhile_congr {α : Type} {p q : α → Bool} {l : List α} (h : ∀ a ∈ l, p a = q a) :
    l.takeWhile p = l.takeWhile q ∧ l.dropWhile p = l.dropWhile q := by
  induction l with
  | nil => exact ⟨rfl, rfl⟩
  | cons a l ih =>
    obtain ⟨htake, hdrop⟩ := ih (List.forall_mem_cons.mp h).2
    rw [List.takeWhile_cons, List.takeWhile_cons, List.dropWhile_cons, List.dropWhile_cons,
      h a List.mem_cons_self, htake, hdrop]
    exact ⟨rfl, rfl⟩

theorem matchArray_onAscii (h : py.OnAscii) {text : Str} (htext : ∀ c ∈ text, c.toNat < 128) :
    matchArray py text = matchArray asciiNumerals text := by
  have hrest : ∀ c ∈ (text.dropWhile fun c => decide (c ≠ '[')).drop 1,
      py.isDecimal c = asciiNumerals.isDecimal c := by
    intro c hc
    exact h.isDecimal c (htext c (List.dropWhile_subset _ (List.drop_subset 1 _ hc)))
  obtain ⟨htake, hdrop⟩ := takeWhile_congr hrest
  unfold matchArray
  dsimp only
  rw [htake, hdrop]

/-- The digits of a declaration. -/
theorem matchArray_digits {text digits : Str} {base : Scalar}
    (h : matchArray asciiNumerals text = some (base, digits)) :
    digits ≠ [] ∧ ∀ c ∈ digits, asciiNumerals.isDecimal c = true := by
  unfold matchArray at h
  dsimp only at h
  split at h
  all_goals first
    | cases h
    | split at h
      · cases h
      · rename_i hne
        cases h
        exact ⟨hne, List.all_eq_true.mp List.all_takeWhile⟩

theorem resolveType_onAscii (h : py.OnAscii) {type : FieldType Struct} (cap : Nat)
    (htype : ∀ text, type = .text text → ∀ c ∈ text, c.toNat < 128) :
    resolveType py type cap = resolveType asciiNumerals type cap := by
  cases type with
  | struct s => rfl
  | text declared =>
    unfold resolveType
    dsimp only
    rw [matchArray_onAscii h (htype declared rfl)]
    cases hmatch : matchArray asciiNumerals declared with
    | none => rfl
    | some found =>
      obtain ⟨base, digits⟩ := found
      obtain ⟨hne, hdigits⟩ := matchArray_digits hmatch
      dsimp only
      rw [h.int digits hne hdigits]

/-- **Layouts do not depend on the numerals.** -/
theorem Struct.init_onAscii (h : py.OnAscii) (name packing : Str)
    {fields : List (Str × FieldType Struct)} (hfields : asciiFields fields = true) :
    Struct.init py name packing fields = Struct.init asciiNumerals name packing fields := by
  have hloop : ∀ layout cursor, layOut py name (capOf packing) fields layout cursor =
      layOut asciiNumerals name (capOf packing) fields layout cursor := by
    induction fields with
    | nil => exact fun _ _ => rfl
    | cons field rest ih =>
      obtain ⟨field, type⟩ := field
      obtain ⟨hfirst, hrest⟩ := Bool.and_eq_true_iff.mp hfields
      have htype : resolveType py type (capOf packing) =
          resolveType asciiNumerals type (capOf packing) := by
        refine resolveType_onAscii h _ fun text heq c hc => ?_
        subst heq
        exact of_decide_eq_true (List.all_eq_true.mp hfirst c hc)
      intro layout cursor
      rw [layOut, layOut, htype]
      split
      · rfl
      · exact congrArg _ (funext fun typ => ih hrest _ _)
  unfold Struct.init
  rw [hloop]

end Ascii

/-! ## The records -/

/-- The entry of a field of bytes. -/
def bytesEntry (field : String) (offset count : Nat) (type : String) : LayoutEntry Struct :=
  ⟨field.toList, offset, ⟨count, 1, .array .u8 count⟩, .text type.toList⟩

/-- `FSSpec`. -/
def fsSpec : Struct :=
  ⟨"FSSpec".toList, "mac68k".toList,
    [scalarEntry "vRefNum" 0 .s16, scalarEntry "parID" 2 .s32, bytesEntry "name" 6 64 "u8[64]"],
    2, 70⟩

/-- The fields of `FSSpec`, as declared. -/
def fsSpecFields : List (Str × FieldType Struct) :=
  [declared "vRefNum" .s16, declared "parID" .s32, ("name".toList, .text "u8[64]".toList)]

/-- `FSCatalogInfo`. -/
def fsCatalogInfo : Struct :=
  ⟨"FSCatalogInfo".toList, "mac68k".toList,
    [scalarEntry "nodeFlags" 0 .u16, scalarEntry "volume" 2 .s16,
      scalarEntry "parentDirID" 4 .u32, scalarEntry "nodeID" 8 .u32,
      scalarEntry "sharingFlags" 12 .u8, scalarEntry "userPrivileges" 13 .u8,
      scalarEntry "reserved1" 14 .u8, scalarEntry "reserved2" 15 .u8,
      bytesEntry "createDate" 16 8 "u8[8]", bytesEntry "contentModDate" 24 8 "u8[8]",
      bytesEntry "attributeModDate" 32 8 "u8[8]", bytesEntry "accessDate" 40 8 "u8[8]",
      bytesEntry "backupDate" 48 8 "u8[8]", bytesEntry "permissions" 56 16 "u8[16]",
      bytesEntry "finderInfo" 72 16 "u8[16]", bytesEntry "extFinderInfo" 88 16 "u8[16]",
      scalarEntry "dataLogicalSize" 104 .u64, scalarEntry "dataPhysicalSize" 112 .u64,
      scalarEntry "rsrcLogicalSize" 120 .u64, scalarEntry "rsrcPhysicalSize" 128 .u64,
      scalarEntry "valence" 136 .u32, scalarEntry "textEncodingHint" 140 .u32], 2, 144⟩

/-- The fields of `FSCatalogInfo`, as declared. -/
def fsCatalogInfoFields : List (Str × FieldType Struct) :=
  [declared "nodeFlags" .u16, declared "volume" .s16, declared "parentDirID" .u32,
    declared "nodeID" .u32, declared "sharingFlags" .u8, declared "userPrivileges" .u8,
    declared "reserved1" .u8, declared "reserved2" .u8,
    ("createDate".toList, .text "u8[8]".toList), ("contentModDate".toList, .text "u8[8]".toList),
    ("attributeModDate".toList, .text "u8[8]".toList), ("accessDate".toList, .text "u8[8]".toList),
    ("backupDate".toList, .text "u8[8]".toList), ("permissions".toList, .text "u8[16]".toList),
    ("finderInfo".toList, .text "u8[16]".toList), ("extFinderInfo".toList, .text "u8[16]".toList),
    declared "dataLogicalSize" .u64, declared "dataPhysicalSize" .u64,
    declared "rsrcLogicalSize" .u64, declared "rsrcPhysicalSize" .u64, declared "valence" .u32,
    declared "textEncodingHint" .u32]

/-- The fields of `CWFileInfo`, as declared. -/
def cwFileInfoFields : List (Str × FieldType Struct) :=
  [declared "fullsearch" .boolean, declared "dependencyType" .s8,
    declared "isdependentoffile" .s32, declared "suppressload" .boolean,
    declared "padding" .boolean, declared "filedata" .ptr, declared "filedatalength" .s32,
    declared "filedatatype" .s16, declared "fileID" .s16,
    ("filespec".toList, .struct cwFileSpec), declared "alreadyincluded" .boolean,
    declared "recordbrowseinfo" .boolean]

/-- `CWFileInfo`. -/
def cwFileInfo : Struct :=
  ⟨"CWFileInfo".toList, "mac68k".toList,
    [scalarEntry "fullsearch" 0 .boolean, scalarEntry "dependencyType" 1 .s8,
      scalarEntry "isdependentoffile" 2 .s32, scalarEntry "suppressload" 6 .boolean,
      scalarEntry "padding" 7 .boolean, scalarEntry "filedata" 8 .ptr,
      scalarEntry "filedatalength" 12 .s32, scalarEntry "filedatatype" 16 .s16,
      scalarEntry "fileID" 18 .s16,
      ⟨"filespec".toList, 20, ⟨592, 2, .struct⟩, .struct cwFileSpec⟩,
      scalarEntry "alreadyincluded" 612 .boolean, scalarEntry "recordbrowseinfo" 613 .boolean],
    2, 614⟩

theorem cwFileInfo_init (py : Numerals) :
    Struct.init py "CWFileInfo".toList "mac68k".toList cwFileInfoFields = .ok cwFileInfo := rfl

/-- The fields of `CWMessageRef`, as declared. -/
def cwMessageRefFields : List (Str × FieldType Struct) :=
  [("sourcefile".toList, .struct cwFileSpec), declared "linenumber" .s32,
    declared "tokenoffset" .s16, declared "tokenlength" .s16, declared "selectionoffset" .s32,
    declared "selectionlength" .s32]

/-- `CWMessageRef`. -/
def cwMessageRef : Struct :=
  ⟨"CWMessageRef".toList, "mac68k".toList,
    [⟨"sourcefile".toList, 0, ⟨592, 2, .struct⟩, .struct cwFileSpec⟩,
      scalarEntry "linenumber" 592 .s32, scalarEntry "tokenoffset" 596 .s16,
      scalarEntry "tokenlength" 598 .s16, scalarEntry "selectionoffset" 600 .s32,
      scalarEntry "selectionlength" 604 .s32], 2, 608⟩

theorem cwMessageRef_init (py : Numerals) :
    Struct.init py "CWMessageRef".toList "mac68k".toList cwMessageRefFields = .ok cwMessageRef :=
  rfl

section Built

variable {py : Numerals}

/-- A record without nested ones. -/
theorem built_of_texts (h : py.OnAscii) {name packing : Str}
    {fields : List (Str × FieldType Struct)} {s : Struct}
    (htexts : ∀ field inner, (field, FieldType.struct inner) ∉ fields)
    (hascii : asciiFields fields = true)
    (hinit : Struct.init asciiNumerals name packing fields = .ok s) : Built py s :=
  .init (fun field inner hmem => absurd hmem (htexts field inner))
    ((Struct.init_onAscii h name packing hascii).trans hinit)

/-- The fields of `FSRef`, as declared. -/
def fsRefFields : List (Str × FieldType Struct) := [("hidden".toList, .text "u8[80]".toList)]

/-- The fields of `HFSUniStr255`, as declared. -/
def hfsUniStr255Fields : List (Str × FieldType Struct) :=
  [declared "length" .u16, ("unicode".toList, .text "u16[255]".toList)]

theorem fsRef_ascii :
    Struct.init asciiNumerals "FSRef".toList "power".toList fsRefFields = .ok fsRef := rfl

theorem hfsUniStr255_ascii : Struct.init asciiNumerals "HFSUniStr255".toList "power".toList
    hfsUniStr255Fields = .ok hfsUniStr255 := rfl

theorem fsSpec_ascii :
    Struct.init asciiNumerals "FSSpec".toList "mac68k".toList fsSpecFields = .ok fsSpec := rfl

theorem fsCatalogInfo_ascii : Struct.init asciiNumerals "FSCatalogInfo".toList "mac68k".toList
    fsCatalogInfoFields = .ok fsCatalogInfo := rfl

theorem fsRef_built (h : py.OnAscii) : Built py fsRef :=
  built_of_texts h (by simp [fsRefFields]) rfl fsRef_ascii

theorem hfsUniStr255_built (h : py.OnAscii) : Built py hfsUniStr255 :=
  built_of_texts h (by simp [hfsUniStr255Fields, declared]) rfl hfsUniStr255_ascii

theorem fsSpec_built (h : py.OnAscii) : Built py fsSpec :=
  built_of_texts h (by simp [fsSpecFields, declared]) rfl fsSpec_ascii

theorem fsCatalogInfo_built (h : py.OnAscii) : Built py fsCatalogInfo :=
  built_of_texts h (by simp [fsCatalogInfoFields, declared]) rfl fsCatalogInfo_ascii

theorem cwFileSpec_built (h : py.OnAscii) : Built py cwFileSpec := by
  refine .init (fun field inner hmem => ?_) (cwFileSpec_init py)
  rcases List.mem_cons.mp hmem with heq | hmem
  · cases heq
    exact fsRef_built h
  · cases List.mem_singleton.mp hmem
    exact hfsUniStr255_built h

/-- The two records of the callbacks that hold a file specification. -/
theorem cwFileInfo_built (h : py.OnAscii) : Built py cwFileInfo := by
  refine .init (fun field inner hmem => ?_) (cwFileInfo_init py)
  simp only [cwFileInfoFields, declared, List.mem_cons, Prod.mk.injEq, reduceCtorEq, and_false,
    false_or, FieldType.struct.injEq, List.not_mem_nil, or_false] at hmem
  rw [hmem.2]
  exact cwFileSpec_built h

theorem cwMessageRef_built (h : py.OnAscii) : Built py cwMessageRef := by
  refine .init (fun field inner hmem => ?_) (cwMessageRef_init py)
  simp only [cwMessageRefFields, declared, List.mem_cons, Prod.mk.injEq, reduceCtorEq, and_false,
    FieldType.struct.injEq, List.not_mem_nil, or_false] at hmem
  rw [hmem.2]
  exact cwFileSpec_built h

end Built

/-! ## Their values -/

/-- The values of a `HFSUniStr255`. -/
def uniStrItems (units : List Nat) : List (Str × Value) :=
  [("length".toList, .int units.length),
    ("unicode".toList, .list ((units ++ List.replicate (255 - units.length) 0).map
      fun u => .int (u : Nat)))]

/-- The values of a `FSSpec`. -/
def fsSpecItems (vRefNum parId : Int) (name : List UInt8) : List (Str × Value) :=
  [("vRefNum".toList, .int vRefNum), ("parID".toList, .int parId), ("name".toList, .bytes name)]

section Values

/-- A name that is not too long is in its range. -/
theorem uniStrItems_canonical {units : List Nat} (hunits : ∀ u ∈ units, u < 2 ^ 16)
    (hlen : units.length ≤ 255) : hfsUniStr255.Canonical (uniStrItems units) := by
  have hunit : ∀ u : Nat, u < 2 ^ 16 → Scalar.u16.Canonical (.int u) :=
    fun u hu => ⟨u, rfl, Int.natCast_nonneg u, by exact_mod_cast hu⟩
  have harray : ∀ item ∈ (units ++ List.replicate (255 - units.length) 0).map
      (fun u => Value.int (u : Nat)), Scalar.u16.Canonical item := by
    intro item hitem
    obtain ⟨u, hu, rfl⟩ := List.mem_map.mp hitem
    refine hunit u ?_
    rcases List.mem_append.mp hu with hu | hu
    · exact hunits u hu
    · rw [List.eq_of_mem_replicate hu]
      decide
  refine ⟨by simp [uniStrItems], ?_, ?_, trivial⟩
  · rintro _ ⟨⟩
    exact hunit _ (by omega)
  · rintro _ ⟨⟩
    refine ⟨_, rfl, ?_, harray⟩
    rw [List.length_map, List.length_append, List.length_replicate]
    omega

/-- **The values of a FSSpec are in their ranges** if the name fills its field, and only then. -/
theorem fsSpecItems_canonical_iff {vRefNum parId : Int} {name : List UInt8} :
    fsSpec.Canonical (fsSpecItems vRefNum parId name) ↔
      (-2 ^ 15 ≤ vRefNum ∧ vRefNum < 2 ^ 15) ∧ (-2 ^ 31 ≤ parId ∧ parId < 2 ^ 31) ∧
        name.length = 64 := by
  constructor
  · rintro ⟨-, hvRefNum, hparId, hname, -⟩
    obtain ⟨_, ⟨⟩, hvRefNum⟩ := hvRefNum _ rfl
    obtain ⟨_, ⟨⟩, hparId⟩ := hparId _ rfl
    obtain ⟨_, ⟨⟩, hname⟩ := hname _ rfl
    exact ⟨hvRefNum, hparId, hname⟩
  · rintro ⟨hvRefNum, hparId, hname⟩
    refine ⟨by simp [fsSpecItems, scalarEntry, bytesEntry], ?_, ?_, ?_, trivial⟩
    · rintro _ ⟨⟩
      exact ⟨vRefNum, rfl, hvRefNum⟩
    · rintro _ ⟨⟩
      exact ⟨parId, rfl, hparId⟩
    · rintro _ ⟨⟩
      exact ⟨name, rfl, hname⟩

end Values

end Cwhost
