import Cwhost.Abi.Struct

/-!
# The records the callbacks read (`abi.py`)

`CWNewTextDocumentInfo`, `CWDependencyInfo` and `CWObjectData`, with the structures nested in them,
as the constructor lays them out (`cwObjectData_init`, …).
-/

namespace Cwhost

open Lib

/-- The entry of a scalar field under the packing `mac68k`. -/
def scalarEntry (field : String) (offset : Nat) (kind : Scalar) : LayoutEntry Struct :=
  ⟨field.toList, offset, ⟨kind.size, min kind.align 2, .scalar kind⟩, .text kind.name⟩

/-- A field as it is declared. -/
def declared (field : String) (kind : Scalar) : Str × FieldType Struct :=
  (field.toList, .text kind.name)

/-- `values[field]`, for a field that holds a number. -/
def intField (values : List (Str × Value)) (field : String) : Int :=
  match values.lookup field.toList with
  | some (.int v) => v
  | _ => 0

/-- `values[field]`, for a field that holds bytes. -/
def bytesField (values : List (Str × Value)) (field : String) : List UInt8 :=
  match values.lookup field.toList with
  | some (.bytes data) => data
  | _ => []

/-- `values[field]`, for a field that holds a list. -/
def listField (values : List (Str × Value)) (field : String) : List Value :=
  match values.lookup field.toList with
  | some (.list items) => items
  | _ => []

/-- `values[field]`, for a field that holds a structure. -/
def dictField (values : List (Str × Value)) (field : String) : List (Str × Value) :=
  match values.lookup field.toList with
  | some (.dict items) => items
  | _ => []

/-! ## File specifications -/

/-- `FSRef`. -/
def fsRef : Struct :=
  ⟨"FSRef".toList, "power".toList,
    [⟨"hidden".toList, 0, ⟨80, 1, .array .u8 80⟩, .text "u8[80]".toList⟩], 4, 80⟩

/-- `HFSUniStr255`. -/
def hfsUniStr255 : Struct :=
  ⟨"HFSUniStr255".toList, "power".toList,
    [⟨"length".toList, 0, ⟨2, 2, .scalar .u16⟩, .text "u16".toList⟩,
      ⟨"unicode".toList, 2, ⟨510, 2, .array .u16 255⟩, .text "u16[255]".toList⟩], 4, 512⟩

/-- `CWFileSpec`. -/
def cwFileSpec : Struct :=
  ⟨"CWFileSpec".toList, "mac68k".toList,
    [⟨"parentDirRef".toList, 0, ⟨80, 4, .struct⟩, .struct fsRef⟩,
      ⟨"filename".toList, 80, ⟨512, 4, .struct⟩, .struct hfsUniStr255⟩], 2, 592⟩

theorem cwFileSpec_init (py : Numerals) :
    Struct.init py "CWFileSpec".toList "mac68k".toList
      [("parentDirRef".toList, .struct fsRef), ("filename".toList, .struct hfsUniStr255)] =
      .ok cwFileSpec := rfl

/-! ## What the plug-in hands over -/

/-- `CWDependencyInfo`. -/
def cwDependencyInfo : Struct :=
  ⟨"CWDependencyInfo".toList, "mac68k".toList,
    [scalarEntry "fileIndex" 0 .s32,
      ⟨"fileSpec".toList, 4, ⟨592, 2, .struct⟩, .struct cwFileSpec⟩,
      scalarEntry "fileSpecAccessType" 596 .s16, scalarEntry "dependencyType" 598 .s16], 2, 600⟩

/-- `CWNewTextDocumentInfo`. -/
def cwNewTextDocumentInfo : Struct :=
  ⟨"CWNewTextDocumentInfo".toList, "mac68k".toList,
    [scalarEntry "documentname" 0 .ptr, scalarEntry "text" 4 .ptr,
      scalarEntry "markDirty" 8 .boolean],
    2, 10⟩

theorem cwNewTextDocumentInfo_init (py : Numerals) :
    Struct.init py "CWNewTextDocumentInfo".toList "mac68k".toList
      [declared "documentname" .ptr, declared "text" .ptr, declared "markDirty" .boolean] =
      .ok cwNewTextDocumentInfo := rfl

/-- `CWObjectData`. -/
def cwObjectData : Struct :=
  ⟨"CWObjectData".toList, "mac68k".toList,
    [scalarEntry "objectdata" 0 .ptr, scalarEntry "browsedata" 4 .ptr,
      scalarEntry "reserved1" 8 .s32, scalarEntry "codesize" 12 .s32,
      scalarEntry "udatasize" 16 .s32, scalarEntry "idatasize" 20 .s32,
      scalarEntry "compiledlines" 24 .s32, scalarEntry "interfaceChanged" 28 .boolean,
      scalarEntry "reserved2" 30 .s32, scalarEntry "compilecontext" 34 .ptr,
      scalarEntry "dependencies" 38 .ptr, scalarEntry "dependencyCount" 42 .s16,
      scalarEntry "objectfile" 44 .ptr],
    2, 48⟩

theorem cwObjectData_init (py : Numerals) :
    Struct.init py "CWObjectData".toList "mac68k".toList
      [declared "objectdata" .ptr, declared "browsedata" .ptr, declared "reserved1" .s32,
        declared "codesize" .s32, declared "udatasize" .s32, declared "idatasize" .s32,
        declared "compiledlines" .s32, declared "interfaceChanged" .boolean,
        declared "reserved2" .s32, declared "compilecontext" .ptr, declared "dependencies" .ptr,
        declared "dependencyCount" .s16, declared "objectfile" .ptr] =
      .ok cwObjectData := rfl

/-- `DropInFlags`. -/
def dropInFlags : Struct :=
  ⟨"DropInFlags".toList, "mac68k".toList,
    [scalarEntry "rsrcversion" 0 .s16, scalarEntry "dropintype" 2 .ostype,
      scalarEntry "earliestCompatibleAPIVersion" 6 .u16, scalarEntry "dropinflags" 8 .u32,
      scalarEntry "edit_language" 12 .ostype, scalarEntry "newestAPIVersion" 16 .u16], 2, 18⟩

theorem dropInFlags_init (py : Numerals) :
    Struct.init py "DropInFlags".toList "mac68k".toList
      [declared "rsrcversion" .s16, declared "dropintype" .ostype,
        declared "earliestCompatibleAPIVersion" .u16, declared "dropinflags" .u32,
        declared "edit_language" .ostype, declared "newestAPIVersion" .u16] =
      .ok dropInFlags := rfl

end Cwhost
