import Cwhost.Guest
import Cwhost.MacRoman
import Cwhost.Lib.Layout
import Mathlib.Data.Char
import Mathlib.Data.List.Lex

/-!
# Structure layouts and their codec (`abi.py`)

A `Struct` is what its constructor leaves behind: the entries of `_layout`, `align` and `size`.
The type of a field is a text (`"u16"`, `"u8[64]"`) or another `Struct`, so structures nest to any
depth; encoding and decoding follow that nesting.

* `Struct.init`: the constructor. `Built`: what it accepts, all nested structures included.
* `encodeField`, `decodeField`, `Struct.packBytes`, `Struct.unpackBytes`: the codec, by recursion
  on the structure.
* `Struct.pack`, `Struct.unpack`, `Struct.writeField`: the same in guest memory.
-/

namespace Cwhost

open Lib

/-! ## Types -/

/-- What the module asks of Python's numerals: `\d`, and `int` of a text. -/
structure Numerals where
  isDecimal : Char → Bool
  int : Str → Option Int

/-- The keys of `_SCALARS`. -/
inductive Scalar
  | u8 | s8 | u16 | s16 | u32 | s32 | u64 | s64 | ptr | ostype | boolean
  deriving DecidableEq, Repr

namespace Scalar

/-- The key. -/
def name : Scalar → Str
  | u8 => ['u', '8']
  | s8 => ['s', '8']
  | u16 => ['u', '1', '6']
  | s16 => ['s', '1', '6']
  | u32 => ['u', '3', '2']
  | s32 => ['s', '3', '2']
  | u64 => ['u', '6', '4']
  | s64 => ['s', '6', '4']
  | ptr => ['p', 't', 'r']
  | ostype => ['o', 's', 't', 'y', 'p', 'e']
  | boolean => ['B', 'o', 'o', 'l', 'e', 'a', 'n']

/-- The keys in the order of the table. -/
def all : List Scalar := [u8, s8, u16, s16, u32, s32, u64, s64, ptr, ostype, boolean]

/-- The scalar of a key. -/
def ofName (text : Str) : Option Scalar := all.find? fun kind => decide (kind.name = text)

/-- The first component of the table. -/
def size : Scalar → Nat
  | u8 | s8 | boolean => 1
  | u16 | s16 => 2
  | u32 | s32 | ptr | ostype => 4
  | u64 | s64 => 8

/-- The second component of the table. -/
def align : Scalar → Nat
  | u8 | s8 | boolean => 1
  | u16 | s16 => 2
  | u32 | s32 | ptr | ostype => 4
  | u64 | s64 => 8

/-- `kind.startswith("s")`. -/
def signed (kind : Scalar) : Bool := ['s'].isPrefixOf kind.name

theorem size_pos (kind : Scalar) : 0 < kind.size := by
  cases kind <;> decide

theorem align_pos (kind : Scalar) : 0 < kind.align := by
  cases kind <;> decide

end Scalar

/-- `kind`, `base` and `count` of a `_Type`. -/
inductive Kind
  | scalar (base : Scalar)
  | array (base : Scalar) (count : Nat)
  | struct
  deriving DecidableEq, Repr

/-- `_Type`. -/
structure Typ where
  size : Nat
  align : Nat
  kind : Kind
  deriving DecidableEq, Repr

/-- The type of a field, as declared. -/
inductive FieldType (σ : Type)
  | text (declared : Str)
  | struct (s : σ)

/-- An item of `_layout`. -/
structure LayoutEntry (σ : Type) where
  field : Str
  offset : Nat
  typ : Typ
  type : FieldType σ

/-- A `Struct` object. -/
inductive Struct
  | mk (name packing : Str) (layout : List (LayoutEntry Struct)) (align size : Nat)

namespace Struct

/-- `self.name`. -/
def name : Struct → Str
  | ⟨name, _, _, _, _⟩ => name

/-- `self.packing`. -/
def packing : Struct → Str
  | ⟨_, packing, _, _, _⟩ => packing

/-- `self._layout`. -/
def layout : Struct → List (LayoutEntry Struct)
  | ⟨_, _, layout, _, _⟩ => layout

/-- `self.align`. -/
def align : Struct → Nat
  | ⟨_, _, _, align, _⟩ => align

/-- `self.size`. -/
def size : Struct → Nat
  | ⟨_, _, _, _, size⟩ => size

end Struct

/-! ## The constructor -/

/-- `_align_up`. -/
def alignUp (value align : Nat) : Nat := (value + align - 1) / align * align

/-- `_ARRAY_RE.match`: the base and the digits. The `$` also matches before a final newline. -/
def matchArray (py : Numerals) (text : Str) : Option (Scalar × Str) :=
  let base := text.takeWhile fun c => decide (c ≠ '[')
  let rest := (text.dropWhile fun c => decide (c ≠ '[')).drop 1
  let digits := rest.takeWhile py.isDecimal
  match Scalar.ofName base, rest.dropWhile py.isDecimal with
  | some kind, [']'] | some kind, [']', '\n'] => if digits = [] then none else some (kind, digits)
  | _, _ => none

/-- `_resolve_type`. -/
def resolveType (py : Numerals) (type : FieldType Struct) (cap : Nat) : Except Exc Typ :=
  match type with
  | .struct s => return ⟨s.size, s.align, .struct⟩
  | .text declared =>
    match matchArray py declared with
    | some (base, digits) =>
      match py.int digits with
      | none => throw .valueError
      | some count =>
        if count < 0 then
          throw (.hostError s!"negative ABI array length {String.ofList declared}")
        else
          return ⟨base.size * count.toNat, min base.align cap, .array base count.toNat⟩
    | none =>
      match Scalar.ofName declared with
      | none => throw (.hostError s!"unknown ABI field type {pyRepr declared}")
      | some base => return ⟨base.size, min base.align cap, .scalar base⟩

/-- `cap`. -/
def capOf (packing : Str) : Nat := if packing = ['m', 'a', 'c', '6', '8', 'k'] then 2 else 4

/-- The loop of `__init__`, and `cursor` after it. -/
def layOut (py : Numerals) (name : Str) (cap : Nat) : List (Str × FieldType Struct) →
    List (LayoutEntry Struct) → Nat → Except Exc (List (LayoutEntry Struct) × Nat)
  | [], layout, cursor => return (layout, cursor)
  | (field, type) :: rest, layout, cursor =>
    if field ∈ layout.map LayoutEntry.field then
      throw (.hostError s!"duplicate field {String.ofList field} in {String.ofList name}")
    else do
      let typ ← resolveType py type cap
      let offset := alignUp cursor typ.align
      layOut py name cap rest (layout ++ [⟨field, offset, typ, type⟩]) (offset + typ.size)

/-- `Struct.__init__`. -/
def Struct.init (py : Numerals) (name packing : Str) (fields : List (Str × FieldType Struct)) :
    Except Exc Struct :=
  if packing ∉ [['m', 'a', 'c', '6', '8', 'k'], ['p', 'o', 'w', 'e', 'r']] then
    throw (.hostError s!"unknown ABI packing {pyRepr packing}")
  else do
    let (layout, cursor) ← layOut py name (capOf packing) fields [] 0
    return ⟨name, packing, layout, capOf packing, alignUp cursor (capOf packing)⟩

/-- A `Struct` object: everything nested in it has come out of the constructor too. -/
inductive Built (py : Numerals) : Struct → Prop
  | init {name packing : Str} {fields : List (Str × FieldType Struct)} {s : Struct}
    (nested : ∀ field inner, (field, FieldType.struct inner) ∈ fields → Built py inner)
    (accepted : Struct.init py name packing fields = .ok s) : Built py s

/-! ## Values -/

/-- The Python values the codec takes and gives. A tuple is a list, `True` and `False` are 1 and
0. -/
inductive Value
  | int (v : Int)
  | bytes (data : List UInt8)
  | str (text : Str)
  | list (items : List Value)
  | dict (items : List (Str × Value))

/-- `bool(value)`. -/
def Value.isTrue : Value → Bool
  | .int v => decide (v ≠ 0)
  | .bytes data => !data.isEmpty
  | .str text => !text.isEmpty
  | .list items => !items.isEmpty
  | .dict items => !items.isEmpty

/-- `int(value)`. -/
def Value.toInt (py : Numerals) : Value → Except Exc Int
  | .int v => return v
  | .str text =>
    match py.int text with
    | some v => return v
    | none => throw .valueError
  | .bytes data =>
    match py.int (data.map fun b => Char.ofNat b.toNat) with
    | some v => return v
    | none => throw .valueError
  | .list _ => throw (.typeError
      "int() argument must be a string, a bytes-like object or a real number, not 'list'")
  | .dict _ => throw (.typeError
      "int() argument must be a string, a bytes-like object or a real number, not 'dict'")

/-- `v.to_bytes(size, "big", signed=signed)`. -/
def toBytes (size : Nat) (signed : Bool) (v : Int) : Except Exc (List UInt8) :=
  if signed then
    if -2 ^ (8 * size - 1) ≤ v ∧ v < 2 ^ (8 * size - 1) then
      return toBE size (v % 2 ^ (8 * size)).toNat
    else
      throw .overflowError
  else if 0 ≤ v ∧ v < 2 ^ (8 * size) then
    return toBE size v.toNat
  else
    throw .overflowError

/-- The length check of an OSType. -/
def osTypeBytes (raw : List UInt8) : Except Exc (List UInt8) :=
  if raw.length ≠ 4 then
    throw (.hostError s!"OSType must contain four bytes, got {bytesRepr raw}")
  else
    return raw

/-- `_scalar_encode`. -/
def scalarEncode (py : Numerals) (kind : Scalar) (value : Value) : Except Exc (List UInt8) :=
  if kind = .ostype then
    match value with
    | .str text =>
      match encodeMacRoman text with
      | some raw => osTypeBytes raw
      | none => throw .valueError
    | .bytes raw => osTypeBytes raw
    | value => do
      let v ← value.toInt py
      toBytes kind.size kind.signed v
  else if kind = .boolean then
    toBytes kind.size kind.signed (if value.isTrue then 1 else 0)
  else do
    let v ← value.toInt py
    toBytes kind.size kind.signed v

/-- `_encode_value`. -/
def encodeValue (py : Numerals) (typ : Typ) (value : Value) : Except Exc (List UInt8) :=
  match typ.kind, value with
  | .struct, .dict _ => throw (.hostError "nested ABI type has no owning codec")
  | .struct, _ => throw (.hostError "nested ABI structures require a dict value")
  | .scalar base, value => scalarEncode py base value
  | .array .u8 count, .bytes raw =>
    if raw.length ≠ count then
      throw (.hostError s!"expected {count} bytes, got {raw.length}")
    else
      return raw
  | .array base count, .list items =>
    if items.length ≠ count then
      throw (.hostError s!"expected {count} array elements, got {items.length}")
    else
      List.flatten <$> items.mapM (scalarEncode py base)
  | .array _ _, _ => throw (.hostError "ABI array values require a sequence")

/-- `_scalar_decode`. -/
def scalarDecode (kind : Scalar) (raw : List UInt8) : Except Exc Value :=
  if kind = .ostype then
    return .bytes raw
  else if kind = .boolean then
    match raw with
    | b :: _ => return .int b.toNat
    | [] => throw .indexError
  else if kind.signed then
    return .int (signed (8 * raw.length) (beNat raw))
  else
    return .int (beNat raw)

/-- `raw[i : i + size] for i in range(0, len(raw), size)`. -/
def chunks (size : Nat) (raw : List UInt8) : List (List UInt8) :=
  (List.range ((raw.length + size - 1) / size)).map fun i => slice raw (i * size) (i * size + size)

/-- `_decode_value`. -/
def decodeValue (typ : Typ) (raw : List UInt8) : Except Exc Value :=
  match typ.kind with
  | .scalar base => scalarDecode base raw
  | .array .u8 _ => return .bytes raw
  | .array base _ => .list <$> (chunks base.size raw).mapM (scalarDecode base)
  | .struct => throw (.hostError "nested ABI type requires its owning codec")

/-- `_default_value`. -/
def defaultValue (typ : Typ) : Value :=
  match typ.kind with
  | .scalar .ostype => .bytes (List.replicate 4 0)
  | .scalar _ => .int 0
  | .array .u8 count => .bytes (List.replicate count 0)
  | .array _ count => .list (List.replicate count (.int 0))
  | .struct => .dict []

/-! ## Structures -/

/-- The complaint about keyword arguments that are no fields. -/
def checkFields (name : Str) (layout : List (LayoutEntry Struct)) (values : List (Str × Value)) :
    Except Exc Unit :=
  let unknown := (values.map Prod.fst).filter fun key => decide (key ∉ layout.map LayoutEntry.field)
  if unknown ≠ [] then
    let names := (unknown.mergeSort fun a b => decide (a ≤ b)).map String.ofList
    let joined := String.intercalate ", " names
    throw (.hostError s!"unknown fields for {String.ofList name}: {joined}")
  else
    return

mutual

/-- `_pack_bytes`. -/
def Struct.packBytes (py : Numerals) : Struct → List UInt8 → List (Str × Value) →
    Except Exc (List UInt8)
  | ⟨name, _, layout, _, _⟩, target, values => do
    checkFields name layout values
    packFields py name layout target values

/-- The loop of `_pack_bytes`. -/
def packFields (py : Numerals) (name : Str) : List (LayoutEntry Struct) → List UInt8 →
    List (Str × Value) → Except Exc (List UInt8)
  | [], target, _ => return target
  | ⟨field, offset, typ, type⟩ :: rest, target, values => do
    let value := (values.lookup field).getD (defaultValue typ)
    let raw ← encodeField py name type typ value
    packFields py name rest (assign target offset (offset + typ.size) raw) values

/-- `_encode_field`, for the structure `name`. -/
def encodeField (py : Numerals) (name : Str) : FieldType Struct → Typ → Value →
    Except Exc (List UInt8)
  | .text _, typ, value =>
    if typ.kind = .struct then
      throw (.hostError s!"{String.ofList name} nested field has invalid declaration")
    else
      encodeValue py typ value
  | .struct inner, typ, value =>
    if typ.kind = .struct then
      match value with
      | .dict values => inner.packBytes py (List.replicate inner.size 0) values
      | _ => throw (.hostError s!"{String.ofList name} nested field requires a dict")
    else
      encodeValue py typ value

end

mutual

/-- `_unpack_bytes`. -/
def Struct.unpackBytes : Struct → List UInt8 → Except Exc (List (Str × Value))
  | ⟨name, _, layout, _, size⟩, raw =>
    if raw.length < size then
      throw (.hostError s!"short {String.ofList name}: {raw.length} < {size}")
    else
      unpackFields name layout raw

/-- The loop of `_unpack_bytes`. -/
def unpackFields (name : Str) : List (LayoutEntry Struct) → List UInt8 →
    Except Exc (List (Str × Value))
  | [], _ => return []
  | ⟨field, offset, typ, type⟩ :: rest, raw => do
    let value ← decodeField name type typ (slice raw offset (offset + typ.size))
    let result ← unpackFields name rest raw
    return (field, value) :: result

/-- `_decode_field`, for the structure `name`. -/
def decodeField (name : Str) : FieldType Struct → Typ → List UInt8 → Except Exc Value
  | .text _, typ, raw =>
    if typ.kind = .struct then
      throw (.hostError s!"{String.ofList name} nested field has invalid declaration")
    else
      decodeValue typ raw
  | .struct inner, typ, raw =>
    if typ.kind = .struct then
      .dict <$> inner.unpackBytes raw
    else
      decodeValue typ raw

end

/-! ## In guest memory -/

section Memory

variable {M : ByteMemory}

/-- The parameters of `pack`: a keyword argument of one of these names is given twice. -/
def packParameters : List Str := [['s', 'e', 'l', 'f'], ['g', 'u', 'e', 's', 't'],
  ['a', 'd', 'd', 'r']]

/-- `pack(guest, addr, **values)`. -/
def Struct.pack (py : Numerals) (s : Struct) (addr : Nat) (values : List (Str × Value)) :
    EStateM Exc (Guest M) Unit := do
  match (values.map Prod.fst).find? fun key => decide (key ∈ packParameters) with
  | some key => throw (.typeError
      s!"Struct.pack() got multiple values for argument '{String.ofList key}'")
  | none =>
    let raw ← MonadExcept.ofExcept (s.packBytes py (List.replicate s.size 0) values)
    Guest.write addr raw

/-- `unpack(guest, addr)`. -/
def Struct.unpack (s : Struct) (addr : Nat) : EStateM Exc (Guest M) (List (Str × Value)) := do
  let raw ← Guest.read addr s.size
  MonadExcept.ofExcept (s.unpackBytes raw)

/-- `write_field(guest, addr, field, value)`. -/
def Struct.writeField (py : Numerals) (s : Struct) (addr : Nat) (field : Str) (value : Value) :
    EStateM Exc (Guest M) Unit := do
  match s.layout.find? fun entry => decide (entry.field = field) with
  | none =>
    throw (.hostError s!"unknown field {String.ofList s.name}.{String.ofList field}")
  | some entry =>
    let raw ← MonadExcept.ofExcept (encodeField py s.name entry.type entry.typ value)
    Guest.write (addr + entry.offset) raw

end Memory

end Cwhost
