import Cwhost.Pef.Reads
import Cwhost.Resources.Chain

/-!
# What parsing a resource fork reads (`resources.py`, `ResourceFork.parse` and `str_list`)

Every offset of a fork is the file's own. `parseAt` is the parser with each `unpack_from` and each
slice as the source makes it; it does what `parse` does, so a check stands before every read
(`parseAt_parses`), whatever the offsets are.

`references raw` are the entries of the reference lists that the type list of the map names,
wherever they lie. What `parse` answers is these entries and nothing else (`parse_named`): each one
`Placed` with its payload inside the data area, and no pair of type and id twice.
-/

namespace Cwhost.Resources

open Lib
open Pef (HostFailure unpackFrom unpackFrom_bind byteAt byteAt_bind parsesIn_hostError)

/-! ## The entries of the reference lists -/

/-- An entry of a reference list: the type it stands under, the id, and where the payload's length
word lies in the file. -/
structure Reference where
  code : List UInt8
  id : Int
  position : Nat
  deriving DecidableEq, Repr

/-- `count` entries from `ref` on. -/
def typeReferences (raw : List UInt8) (dataOffset : Nat) (code : List UInt8) :
    Nat → Nat → List Reference
  | 0, _ => []
  | count + 1, ref =>
    ⟨code, signed 16 (be raw ref 2), dataOffset + be raw (ref + 5) 3⟩ ::
      typeReferences raw dataOffset code count (ref + 12)

/-- The entries of `count` types from `entry` on. -/
def listReferences (raw : List UInt8) (dataOffset typeStart : Nat) : Nat → Nat → List Reference
  | 0, _ => []
  | count + 1, entry =>
    typeReferences raw dataOffset (slice raw entry (entry + 4)) (be raw (entry + 4) 2 + 1)
      (typeStart + be raw (entry + 6) 2) ++
    listReferences raw dataOffset typeStart count (entry + 8)

/-- Where the type list begins. -/
def typeListStart (raw : List UInt8) : Nat := be raw 4 4 + be raw (be raw 4 4 + 24) 2

/-- The entries that the map of the fork names. -/
def references (raw : List UInt8) : List Reference :=
  listReferences raw (be raw 0 4) (typeListStart raw) (be raw (typeListStart raw) 2 + 1)
    (typeListStart raw + 2)

/-- The payload an entry names: a length word, and that many bytes. -/
def Reference.payload (raw : List UInt8) (r : Reference) : List UInt8 :=
  slice raw (r.position + 4) (r.position + 4 + be raw r.position 4)

/-- The length word and the payload lie in the data area, before `dataEnd`. -/
structure Reference.Placed (raw : List UInt8) (dataOffset dataEnd : Nat) (r : Reference) :
    Prop where
  start : dataOffset ≤ r.position
  stop : r.position + 4 + be raw r.position 4 ≤ dataEnd

/-- What the entry files under its type. -/
def Reference.item (raw : List UInt8) (r : Reference) : Int × List UInt8 := (r.id, r.payload raw)

variable {raw : List UInt8}

/-- **One reference list**: each entry is placed, and is filed under its id. -/
theorem parseRefs_items {dataOffset dataEnd count ref : Nat} {code : List UInt8}
    {typed typed' : Typed}
    (h : parseRefs raw dataOffset dataEnd code count ref typed = .ok typed') :
    (∀ r ∈ typeReferences raw dataOffset code count ref, r.Placed raw dataOffset dataEnd) ∧
      typed'.items = typed.items ++
        (typeReferences raw dataOffset code count ref).map (Reference.item raw) := by
  induction count generalizing ref typed with
  | zero =>
    cases h
    exact ⟨fun r hr => absurd hr List.not_mem_nil, (List.append_nil _).symm⟩
  | succ count ih =>
    rw [parseRefs] at h
    simp only at h
    by_cases hoffset : dataOffset + be raw (ref + 5) 3 + 4 > dataEnd
    · rw [if_pos hoffset] at h
      cases h
    rw [if_neg hoffset] at h
    by_cases hlength : dataOffset + be raw (ref + 5) 3 + 4 +
        be raw (dataOffset + be raw (ref + 5) 3) 4 > dataEnd
    · rw [if_pos hlength] at h
      cases h
    rw [if_neg hlength] at h
    by_cases hdup : signed 16 (be raw ref 2) ∈ typed.keys
    · rw [if_pos hdup] at h
      cases h
    rw [if_neg hdup] at h
    obtain ⟨hplaced, hitems⟩ := ih h
    rw [typeReferences]
    have hfirst : Reference.Placed raw dataOffset dataEnd
        ⟨code, signed 16 (be raw ref 2), dataOffset + be raw (ref + 5) 3⟩ :=
      ⟨Nat.le_add_right _ _, Nat.le_of_not_lt hlength⟩
    refine ⟨List.forall_mem_cons.mpr ⟨hfirst, hplaced⟩, ?_⟩
    rw [hitems, Dict.set_items_of_notMem _ hdup, List.append_assoc, List.map_cons]
    rfl

/-- The resources of one type while the type list is read. -/
def typedIn (resources : Dict (List UInt8) Typed) (code : List UInt8) : Typed :=
  (resources.get? code).getD Dict.empty

/-- The entries that stand under `code`. -/
def under (code : List UInt8) (rs : List Reference) : List Reference :=
  rs.filter fun r => r.code = code

theorem under_append (q : List UInt8) (rs rs' : List Reference) :
    under q (rs ++ rs') = under q rs ++ under q rs' := List.filter_append _ _

theorem under_typeReferences {dataOffset : Nat} {code q : List UInt8} (count ref : Nat) :
    under q (typeReferences raw dataOffset code count ref) =
      if q = code then typeReferences raw dataOffset code count ref else [] := by
  induction count generalizing ref with
  | zero => simp [typeReferences, under]
  | succ count ih =>
    have hrest := ih (ref + 12)
    by_cases hq : q = code
    · subst hq
      rw [if_pos rfl] at hrest ⊢
      rw [typeReferences, under, List.filter_cons_of_pos (by simp)]
      exact congrArg _ hrest
    · rw [if_neg hq] at hrest ⊢
      rw [typeReferences, under, List.filter_cons_of_neg (by simpa using Ne.symm hq)]
      exact hrest

/-- **The type list**: under every type stand its entries, also where it comes twice. -/
theorem parseTypes_items {dataOffset dataEnd typeStart mapEnd count entry : Nat}
    {resources resources' : Dict (List UInt8) Typed}
    (h : parseTypes raw dataOffset dataEnd typeStart mapEnd count entry resources =
      .ok resources') :
    (∀ r ∈ listReferences raw dataOffset typeStart count entry,
      r.Placed raw dataOffset dataEnd) ∧
      ∀ q, (typedIn resources' q).items = (typedIn resources q).items ++
        (under q (listReferences raw dataOffset typeStart count entry)).map
          (Reference.item raw) := by
  induction count generalizing entry resources with
  | zero =>
    cases h
    exact ⟨fun r hr => absurd hr List.not_mem_nil, fun q => (List.append_nil _).symm⟩
  | succ count ih =>
    rw [parseTypes] at h
    simp only at h
    by_cases hrefs : typeStart + be raw (entry + 6) 2 < typeStart ∨
        typeStart + be raw (entry + 6) 2 + 12 * (be raw (entry + 4) 2 + 1) > mapEnd
    · rw [if_pos hrefs] at h
      cases h
    rw [if_neg hrefs] at h
    obtain ⟨typed, htyped, h⟩ := bind_eq_ok h
    obtain ⟨hplaced, hitems⟩ := parseRefs_items htyped
    obtain ⟨hplaced', hitems'⟩ := ih h
    rw [listReferences]
    refine ⟨List.forall_mem_append.mpr ⟨hplaced, hplaced'⟩, fun q => ?_⟩
    rw [hitems' q, under_append, under_typeReferences, List.map_append, ← List.append_assoc]
    refine congrArg (· ++ _) ?_
    rw [typedIn, Dict.get?_set]
    by_cases hq : q = slice raw entry (entry + 4)
    · subst hq
      rw [if_pos rfl, if_pos rfl]
      exact hitems
    · rw [if_neg hq, if_neg hq, List.map_nil, List.append_nil, typedIn]

/-- A list of pairs without repetition, from the second components under each first one. -/
theorem nodup_pairs {α β γ : Type} [DecidableEq β] {f : α → β} {g : α → γ} {l : List α}
    (h : ∀ b, ((l.filter fun a => f a = b).map g).Nodup) : (l.map fun a => (f a, g a)).Nodup := by
  induction l with
  | nil => exact List.nodup_nil
  | cons a l ih =>
    rw [List.map_cons, List.nodup_cons]
    refine ⟨fun hmem => ?_, ih fun b => ?_⟩
    · obtain ⟨a', ha', heq⟩ := List.mem_map.mp hmem
      obtain ⟨hf, hg⟩ := Prod.mk.inj heq
      have hnodup := h (f a)
      rw [List.filter_cons_of_pos (by simp), List.map_cons, List.nodup_cons] at hnodup
      refine hnodup.1 (List.mem_map.mpr ⟨a', ?_, hg⟩)
      exact List.mem_filter.mpr ⟨ha', by simpa using hf⟩
    · refine (h b).sublist (List.Sublist.map g ?_)
      exact (List.sublist_cons_self a l).filter _

/-- The resources of `fork` are the entries of the map of `raw`: no pair of type and id comes twice,
each payload lies in the data area, and `get` finds a resource exactly when an entry names it. -/
structure Named (raw : List UInt8) (fork : ResourceFork) : Prop where
  area : be raw 0 4 + be raw 8 4 ≤ raw.length
  placed : ∀ r ∈ references raw, r.Placed raw (be raw 0 4) (be raw 0 4 + be raw 8 4)
  nodup : ((references raw).map fun r => (r.code, r.id)).Nodup
  get_iff : ∀ resourceType id payload, fork.get resourceType id = .ok (some payload) ↔
    ∃ r ∈ references raw, typeBytes resourceType = .ok r.code ∧ r.id = id ∧ r.payload raw = payload

theorem get_iff_typed {fork : ResourceFork} {resourceType : TypeCode} {id : Int}
    {payload : List UInt8} :
    fork.get resourceType id = .ok (some payload) ↔
      ∃ code, typeBytes resourceType = .ok code ∧ (fork.typed code).get? id = some payload := by
  cases h : typeBytes resourceType with
  | error e => simp [ResourceFork.get, h, bind, Except.bind]
  | ok code => simp [ResourceFork.get_of_typeBytes h]

/-- **What `parse` answers.** -/
theorem parse_named {fork : ResourceFork} (h : parse raw = .ok fork) : Named raw fork := by
  unfold parse at h
  by_cases hheader : raw.length < 16
  · rw [if_pos hheader] at h
    cases h
  simp only [if_neg hheader] at h
  by_cases hareas : be raw 0 4 + be raw 8 4 > raw.length ∨ be raw 4 4 + be raw 12 4 > raw.length
  · rw [if_pos hareas] at h
    cases h
  rw [if_neg hareas] at h
  by_cases hmap : be raw 12 4 < 30
  · rw [if_pos hmap] at h
    cases h
  rw [if_neg hmap] at h
  by_cases hlists : be raw 4 4 + be raw (be raw 4 4 + 24) 2 + 2 > be raw 4 4 + be raw 12 4 ∨
      be raw 4 4 + be raw (be raw 4 4 + 26) 2 > be raw 4 4 + be raw 12 4
  · rw [if_pos hlists] at h
    cases h
  rw [if_neg hlists] at h
  by_cases htypes : be raw 4 4 + be raw (be raw 4 4 + 24) 2 + 2 +
      8 * (be raw (be raw 4 4 + be raw (be raw 4 4 + 24) 2) 2 + 1) > be raw 4 4 + be raw 12 4
  · rw [if_pos htypes] at h
    cases h
  rw [if_neg htypes] at h
  obtain ⟨resources, hresources, h⟩ := bind_eq_ok h
  cases h
  obtain ⟨hplaced, hitems⟩ := parseTypes_items hresources
  replace hitems : ∀ q, (typedIn resources q).items =
      (under q (references raw)).map (Reference.item raw) := hitems
  rw [not_or] at hareas
  refine ⟨by omega, hplaced, nodup_pairs fun q => ?_, fun resourceType id payload => ?_⟩
  · have hnodup := (typedIn resources q).nodup
    rwa [hitems q, List.map_map] at hnodup
  have htyped : ∀ code, (typedIn resources code).get? id = some payload ↔
      ∃ r ∈ references raw, r.code = code ∧ r.id = id ∧ r.payload raw = payload := by
    intro code
    rw [Dict.get?_eq_some_iff, hitems code]
    simp only [List.mem_map, under, List.mem_filter, decide_eq_true_eq, Reference.item,
      Prod.mk.injEq, and_assoc]
  rw [get_iff_typed]
  constructor
  · rintro ⟨code, hcode, hget⟩
    obtain ⟨r, hr, rfl, hrest⟩ := (htyped code).mp hget
    exact ⟨r, hr, hcode, hrest⟩
  · rintro ⟨r, hr, hcode, hrest⟩
    exact ⟨r.code, hcode, (htyped r.code).mpr ⟨r, hr, rfl, hrest⟩⟩

/-! ## The parser, read by read -/

/-- The inner loop of `parse`. -/
def refsAt (raw : List UInt8) (dataOffset dataEnd : Nat) (resourceType : List UInt8) :
    Nat → Nat → Typed → ReadM Exc Typed
  | 0, _, typed => pure typed
  | count + 1, ref, typed => do
    unpackFrom raw ref 2
    let resourceId := signed 16 (be raw ref 2)
    let delta ← sliceAt raw (ref + 5) (ref + 8)
    let dataPosition := dataOffset + beNat delta
    if dataPosition + 4 > dataEnd then
      throw (.hostError s!"resource {resourceName resourceType resourceId} data offset invalid")
    unpackFrom raw dataPosition 4
    let payloadStart := dataPosition + 4
    let payloadEnd := payloadStart + be raw dataPosition 4
    if payloadEnd > dataEnd then
      throw (.hostError s!"resource {resourceName resourceType resourceId} data truncated")
    if resourceId ∈ typed.keys then
      throw (.hostError s!"duplicate resource {resourceName resourceType resourceId}")
    let payload ← sliceAt raw payloadStart payloadEnd
    refsAt raw dataOffset dataEnd resourceType count (ref + 12) (typed.set resourceId payload)

/-- The outer loop of `parse`. -/
def typesAt (raw : List UInt8) (dataOffset dataEnd typeStart mapEnd : Nat) :
    Nat → Nat → Dict (List UInt8) Typed → ReadM Exc (Dict (List UInt8) Typed)
  | 0, _, resources => pure resources
  | count + 1, entry, resources => do
    let resourceType ← sliceAt raw entry (entry + 4)
    unpackFrom raw (entry + 4) 2
    let refCount := be raw (entry + 4) 2 + 1
    unpackFrom raw (entry + 6) 2
    let refsStart := typeStart + be raw (entry + 6) 2
    if refsStart < typeStart ∨ refsStart + 12 * refCount > mapEnd then
      throw (.hostError s!"invalid reference list for resource type {bytesRepr resourceType}")
    let typed ← refsAt raw dataOffset dataEnd resourceType refCount refsStart
      ((resources.get? resourceType).getD Dict.empty)
    typesAt raw dataOffset dataEnd typeStart mapEnd count (entry + 8)
      (resources.set resourceType typed)

/-- `ResourceFork.parse`. -/
def parseAt (raw : List UInt8) : ReadM Exc ResourceFork := do
  if raw.length < 16 then
    throw (.hostError "truncated resource fork header")
  unpackFrom raw 0 16
  let dataOffset := be raw 0 4
  let mapOffset := be raw 4 4
  let dataLength := be raw 8 4
  let mapLength := be raw 12 4
  if dataOffset + dataLength > raw.length ∨ mapOffset + mapLength > raw.length then
    throw (.hostError "resource fork offsets exceed file length")
  if mapLength < 30 then
    throw (.hostError "truncated resource fork map")
  unpackFrom raw (mapOffset + 24) 2
  unpackFrom raw (mapOffset + 26) 2
  let typeStart := mapOffset + be raw (mapOffset + 24) 2
  let nameStart := mapOffset + be raw (mapOffset + 26) 2
  let mapEnd := mapOffset + mapLength
  if typeStart + 2 > mapEnd ∨ nameStart > mapEnd then
    throw (.hostError "invalid resource fork list offsets")
  unpackFrom raw typeStart 2
  let typeCount := be raw typeStart 2 + 1
  if typeStart + 2 + 8 * typeCount > mapEnd then
    throw (.hostError "truncated resource fork type list")
  let resources ← typesAt raw dataOffset (dataOffset + dataLength) typeStart mapEnd typeCount
    (typeStart + 2) Dict.empty
  return ⟨raw, resources⟩

/-- The loop of `str_list`. -/
def stringsAt (payload : List UInt8) (resourceId : Int) :
    Nat → Nat → Nat → ReadM Exc (List (List UInt8))
  | 0, _, _ => pure []
  | count + 1, index, position => do
    if position ≥ payload.length then
      throw (.hostError s!"truncated STR# {resourceId} at string {index + 1}")
    let length ← byteAt payload position
    let start := position + 1
    if start + length > payload.length then
      throw (.hostError s!"truncated STR# {resourceId} at string {index + 1}")
    let string ← sliceAt payload start (start + length)
    let rest ← stringsAt payload resourceId count (index + 1) (start + length)
    return string :: rest

/-- `ResourceFork.str_list`. -/
def strListAt (fork : ResourceFork) (resourceId : Int) : ReadM Exc (List (List UInt8)) := do
  match ← MonadExcept.ofExcept (fork.get (.bytes ResourceFork.strListCode) resourceId) with
  | none => throw (.hostError s!"missing STR# resource {resourceId}")
  | some payload =>
    if payload.length < 2 then
      throw (.hostError s!"truncated STR# resource {resourceId}")
    unpackFrom payload 0 2
    stringsAt payload resourceId (be payload 0 2) 0 2

theorem be_lt (data : List UInt8) (off w : Nat) : be data off w < 256 ^ w := by
  refine (beNat_lt _).trans_le (Nat.pow_le_pow_right (by omega) ?_)
  rw [slice, Nat.add_sub_cancel_left]
  exact List.length_take_le _ _

theorem refsAt_parses {dataOffset dataEnd : Nat} {code : List UInt8}
    (hdata : dataEnd ≤ raw.length) (hoffset : dataOffset < 2 ^ 32) :
    ∀ (count ref : Nat) (typed : Typed), ref + 12 * count ≤ raw.length →
      ref + 12 * count < 2 ^ 63 →
      ParsesIn HostFailure (refsAt raw dataOffset dataEnd code count ref typed)
        (parseRefs raw dataOffset dataEnd code count ref typed)
  | 0, _, typed, _, _ => Mirrors.pure typed
  | count + 1, ref, typed, hend, hlt => by
    have hdelta := be_lt raw (ref + 5) 3
    rw [refsAt, parseRefs]
    refine unpackFrom_bind (by omega) (by omega) (sliceAt_bind (by omega) (by omega) ?_)
    simp only
    rw [show beNat (slice raw (ref + 5) (ref + 8)) = be raw (ref + 5) 3 from rfl]
    by_cases hpos : dataOffset + be raw (ref + 5) 3 + 4 > dataEnd
    · rw [if_pos hpos, if_pos hpos]
      exact parsesIn_hostError
    rw [if_neg hpos, if_neg hpos]
    refine unpackFrom_bind (by omega) (by omega) ?_
    by_cases hlength : dataOffset + be raw (ref + 5) 3 + 4 +
        be raw (dataOffset + be raw (ref + 5) 3) 4 > dataEnd
    · rw [if_pos hlength, if_pos hlength]
      exact parsesIn_hostError
    rw [if_neg hlength, if_neg hlength]
    by_cases hdup : signed 16 (be raw ref 2) ∈ typed.keys
    · rw [if_pos hdup, if_pos hdup]
      exact parsesIn_hostError
    rw [if_neg hdup, if_neg hdup]
    refine sliceAt_bind (Nat.le_add_right _ _) (by omega) ?_
    exact refsAt_parses hdata hoffset count (ref + 12) _ (by omega) (by omega)

theorem typesAt_parses {dataOffset dataEnd typeStart mapEnd : Nat} (hdata : dataEnd ≤ raw.length)
    (hoffset : dataOffset < 2 ^ 32) (hmap : mapEnd ≤ raw.length) (hmapEnd : mapEnd < 2 ^ 63) :
    ∀ (count entry : Nat) (resources : Dict (List UInt8) Typed), entry + 8 * count ≤ mapEnd →
      ParsesIn HostFailure (typesAt raw dataOffset dataEnd typeStart mapEnd count entry resources)
        (parseTypes raw dataOffset dataEnd typeStart mapEnd count entry resources)
  | 0, _, resources, _ => Mirrors.pure resources
  | count + 1, entry, resources, hend => by
    rw [typesAt, parseTypes]
    refine sliceAt_bind (by omega) (by omega) ?_
    refine unpackFrom_bind (by omega) (by omega) ?_
    refine unpackFrom_bind (by omega) (by omega) ?_
    simp only
    by_cases hrefs : typeStart + be raw (entry + 6) 2 < typeStart ∨
        typeStart + be raw (entry + 6) 2 + 12 * (be raw (entry + 4) 2 + 1) > mapEnd
    · rw [if_pos hrefs, if_pos hrefs]
      exact parsesIn_hostError
    rw [if_neg hrefs, if_neg hrefs]
    refine parsesIn_bind (refsAt_parses hdata hoffset _ _ _ (by omega) (by omega)) fun typed _ => ?_
    exact typesAt_parses hdata hoffset hmap hmapEnd count (entry + 8) _ (by omega)

/-- **A check stands before every read**: the reads of `parse` stay inside the fork, and every
exception is `HostError`. -/
theorem parseAt_parses (raw : List UInt8) :
    ParsesIn HostFailure (parseAt raw) (parse raw) := by
  have hword : ∀ off, be raw off 4 < 2 ^ 32 := fun off => be_lt raw off 4
  have hhalf : ∀ off, be raw off 2 < 2 ^ 16 := fun off => be_lt raw off 2
  have h₀ := hword 0
  have h₄ := hword 4
  have h₈ := hword 8
  have h₁₂ := hword 12
  unfold parseAt parse
  by_cases hheader : raw.length < 16
  · rw [if_pos hheader, if_pos hheader]
    exact parsesIn_hostError
  rw [if_neg hheader, if_neg hheader]
  refine unpackFrom_bind (by omega) (by omega) ?_
  simp only
  by_cases hareas : be raw 0 4 + be raw 8 4 > raw.length ∨ be raw 4 4 + be raw 12 4 > raw.length
  · rw [if_pos hareas, if_pos hareas]
    exact parsesIn_hostError
  rw [if_neg hareas, if_neg hareas]
  by_cases hmap : be raw 12 4 < 30
  · rw [if_pos hmap, if_pos hmap]
    exact parsesIn_hostError
  rw [if_neg hmap, if_neg hmap]
  refine unpackFrom_bind (by omega) (by omega) (unpackFrom_bind (by omega) (by omega) ?_)
  by_cases hlists : be raw 4 4 + be raw (be raw 4 4 + 24) 2 + 2 > be raw 4 4 + be raw 12 4 ∨
      be raw 4 4 + be raw (be raw 4 4 + 26) 2 > be raw 4 4 + be raw 12 4
  · rw [if_pos hlists, if_pos hlists]
    exact parsesIn_hostError
  rw [if_neg hlists, if_neg hlists]
  refine unpackFrom_bind (by omega) (by omega) ?_
  by_cases htypes : be raw 4 4 + be raw (be raw 4 4 + 24) 2 + 2 +
      8 * (be raw (be raw 4 4 + be raw (be raw 4 4 + 24) 2) 2 + 1) > be raw 4 4 + be raw 12 4
  · rw [if_pos htypes, if_pos htypes]
    exact parsesIn_hostError
  rw [if_neg htypes, if_neg htypes]
  refine parsesIn_bind ?_ fun _ _ => Mirrors.pure _
  exact typesAt_parses (by omega) h₀ (by omega) (by omega) _ _ _ (by omega)

theorem stringsAt_parses {payload : List UInt8} {resourceId : Int} :
    ∀ count index position : Nat,
      ParsesIn HostFailure (stringsAt payload resourceId count index position)
        (ResourceFork.readStrings payload resourceId count index position)
  | 0, _, _ => Mirrors.pure []
  | count + 1, index, position => by
    rw [stringsAt, ResourceFork.readStrings]
    by_cases hpos : position ≥ payload.length
    · rw [if_pos hpos, if_pos hpos]
      exact parsesIn_hostError
    rw [if_neg hpos, if_neg hpos]
    refine byteAt_bind (by omega) ?_
    simp only
    rw [show Pef.u8 payload position = (payload.getD position 0).toNat from rfl]
    by_cases hlen : position + 1 + (payload.getD position 0).toNat > payload.length
    · rw [if_pos hlen, if_pos hlen]
      exact parsesIn_hostError
    rw [if_neg hlen, if_neg hlen]
    refine sliceAt_bind (Nat.le_add_right _ _) (by omega) ?_
    exact parsesIn_bind (stringsAt_parses count (index + 1) _) fun _ _ => Mirrors.pure _

/-- The reads of `str_list` stay inside the payload. -/
theorem strListAt_parses (fork : ResourceFork) (resourceId : Int) :
    ParsesIn HostFailure (strListAt fork resourceId) (fork.strList resourceId) := by
  rw [strListAt, ResourceFork.strList, ResourceFork.get_of_typeBytes rfl]
  refine parsesIn_bind (y := .ok _) (Mirrors.pure _) fun found _ => ?_
  cases found with
  | none => exact parsesIn_hostError
  | some payload =>
    simp only
    by_cases hlen : payload.length < 2
    · rw [if_pos hlen, if_pos hlen]
      exact parsesIn_hostError
    · rw [if_neg hlen, if_neg hlen]
      exact unpackFrom_bind (by omega) (by omega) (stringsAt_parses _ _ _)

/-- The strings of a list are slices of its payload. -/
theorem slices_of_pascal {payload : List UInt8} {strings : List (List UInt8)} {position : Nat}
    (h : Sits payload position (strings.flatMap pascal)) : ∀ string ∈ strings,
      ∃ start, start + string.length ≤ payload.length ∧
        slice payload start (start + string.length) = string := by
  induction strings generalizing position with
  | nil => exact fun _ hmem => absurd hmem List.not_mem_nil
  | cons first rest ih =>
    rw [List.flatMap_cons, Sits.append_iff] at h
    refine List.forall_mem_cons.mpr ⟨⟨position + 1, ?_, ?_⟩, ih h.2⟩
    · have hlen := h.1.length_le (List.cons_ne_nil _ _)
      rw [pascal, List.length_cons] at hlen
      omega
    · have hstring : Sits payload (position + 1) first :=
        Sits.right (a := [UInt8.ofNat first.length]) h.1
      exact hstring.slice_eq

/-- **Parsing a resource fork is safe on every input.** From any byte string `parse` ends with the
entries of the map or with a `HostError`, and reads only inside the input; from any fork `str_list`
ends with as many strings as the payload counts, each a slice of it, or with a `HostError`. -/
theorem resourceFork_safe :
    (∀ raw, ParsesIn HostFailure (parseAt raw) (parse raw) ∧
      CleanIn HostFailure (parseAt raw) (Named raw)) ∧
    ∀ (fork : ResourceFork) (id : Int),
      ParsesIn HostFailure (strListAt fork id) (fork.strList id) ∧
      CleanIn HostFailure (strListAt fork id) fun strings =>
        ∃ payload, fork.get (.bytes ResourceFork.strListCode) id = .ok (some payload) ∧
          strings.length = be payload 0 2 ∧
          ∀ string ∈ strings, ∃ start, start + string.length ≤ payload.length ∧
            slice payload start (start + string.length) = string := by
  refine ⟨fun raw => ⟨parseAt_parses raw, ?_⟩, fun fork id => ⟨strListAt_parses fork id, ?_⟩⟩
  · exact cleanIn_of_parses (parseAt_parses raw) fun fork h => parse_named h
  · refine cleanIn_of_parses (strListAt_parses fork id) fun strings h => ?_
    obtain ⟨payload, hget, hlist⟩ := strList_spec h
    refine ⟨payload, ?_, hlist.count, slices_of_pascal hlist.consecutive⟩
    rw [ResourceFork.get_of_typeBytes rfl, hget]

end Cwhost.Resources
