import Cwhost.Resources.Fork

/-!
# Decoding a resource fork undoes its layout

The standard format, part by part, at arbitrary places: nothing is assumed of the order in which
the areas, the reference lists, the names and the payloads follow each other, nor of the bytes
between them.

* `LaidOut`: header, map header, type list, reference records, payloads and names.
* `parseRefs_laidOut`, `parseTypes_laidOut`: the two loops, by induction over the references and
  the types still to come; what is decoded already is the prefix of the dictionary.
* `parse_laidOut`: **`parse` succeeds and answers the collection.**
-/

namespace Cwhost.Resources

open Lib

/-! ## Collections and their layout -/

/-- A resource. -/
structure Resource where
  id : Int
  attributes : UInt8
  name : Option (List UInt8)
  payload : List UInt8

/-- A resource type and its resources, in map order. -/
structure TypeEntry where
  code : List UInt8
  resources : List Resource

/-- A collection a fork can hold. -/
structure Collection where
  types : List TypeEntry
  nonempty : types ≠ []
  code_length : ∀ t ∈ types, t.code.length = 4
  codes_nodup : (types.map TypeEntry.code).Nodup
  inhabited : ∀ t ∈ types, t.resources ≠ []
  ids_nodup : ∀ t ∈ types, (t.resources.map Resource.id).Nodup
  ids_fit : ∀ t ∈ types, ∀ r ∈ t.resources, -2 ^ 15 ≤ r.id ∧ r.id < 2 ^ 15

/-- Where the parts of one reference lie: its payload relative to the data area, its name
relative to the name list (`0xFFFF` without a name), and the handle field of its record. -/
structure RefPlace where
  data : Nat
  name : Nat
  handle : List UInt8

/-- Where the parts of a fork lie. -/
structure Places where
  dataOffset : Nat
  dataLength : Nat
  mapOffset : Nat
  mapLength : Nat
  /-- The type list and the name list, relative to the map. -/
  typeList : Nat
  nameList : Nat
  /-- The reference list of the `i`-th type, relative to the type list. -/
  refList : Nat → Nat
  /-- The parts of the `j`-th reference of the `i`-th type. -/
  ref : Nat → Nat → RefPlace

namespace Places

/-- Where the data of the resources ends. -/
def dataEnd (p : Places) : Nat := p.dataOffset + p.dataLength

/-- Where the map ends. -/
def mapEnd (p : Places) : Nat := p.mapOffset + p.mapLength

/-- Where the type list starts. -/
def typeStart (p : Places) : Nat := p.mapOffset + p.typeList

/-- Where the name list starts. -/
def nameStart (p : Places) : Nat := p.mapOffset + p.nameList

end Places

/-- The name field of a reference and the Pascal string it leads to. -/
def NameSits (raw : List UInt8) (nameStart : Nat) (field : Nat) : Option (List UInt8) → Prop
  | none => field = 0xFFFF
  | some name => field < 0xFFFF ∧ name.length < 2 ^ 8 ∧
    Sits raw (nameStart + field) (UInt8.ofNat name.length :: name)

/-- The 12-byte record of a reference. -/
def refRecord (r : Resource) (place : RefPlace) : List UInt8 :=
  toBE 2 (r.id % 2 ^ 16).toNat ++ toBE 2 place.name ++ [r.attributes] ++ toBE 3 place.data ++
    place.handle

/-- A reference with its record at `ref`, its payload and its name. -/
structure RefSits (raw : List UInt8) (p : Places) (ref : Nat) (place : RefPlace) (r : Resource) :
    Prop where
  record : Sits raw ref (refRecord r place)
  data_fits : place.data < 2 ^ 24
  handle : place.handle.length = 4
  payload : Sits raw (p.dataOffset + place.data) (toBE 4 r.payload.length ++ r.payload)
  payload_fits : r.payload.length < 2 ^ 32
  payload_inside : place.data + 4 + r.payload.length ≤ p.dataLength
  name : NameSits raw p.nameStart place.name r.name

/-- A type with its entry at `entry` and its reference list at `refList` of the type list. -/
structure TypeSits (raw : List UInt8) (p : Places) (entry refList : Nat)
    (place : Nat → RefPlace) (t : TypeEntry) : Prop where
  record : Sits raw entry (t.code ++ toBE 2 (t.resources.length - 1) ++ toBE 2 refList)
  count_fits : t.resources.length ≤ 2 ^ 16
  refList_fits : refList < 2 ^ 16
  refs_inside : p.typeList + refList + 12 * t.resources.length ≤ p.mapLength
  refs : ∀ {j : Nat} {r : Resource}, t.resources[j]? = some r →
    RefSits raw p (p.typeStart + refList + 12 * j) (place j) r

/-- **The standard fork format**: `raw` holds the collection `c` at the places `p`. -/
structure LaidOut (raw : List UInt8) (c : Collection) (p : Places) : Prop where
  header : Sits raw 0
    (toBE 4 p.dataOffset ++ toBE 4 p.mapOffset ++ toBE 4 p.dataLength ++ toBE 4 p.mapLength)
  header_fits : p.dataOffset < 2 ^ 32 ∧ p.mapOffset < 2 ^ 32 ∧ p.dataLength < 2 ^ 32 ∧
    p.mapLength < 2 ^ 32
  areas_inside : p.dataEnd ≤ raw.length ∧ p.mapEnd ≤ raw.length
  lists : Sits raw (p.mapOffset + 24) (toBE 2 p.typeList ++ toBE 2 p.nameList)
  lists_fit : p.typeList < 2 ^ 16 ∧ p.nameList < 2 ^ 16
  /-- The type list follows the 28 bytes of the map header. -/
  typeList_after : 28 ≤ p.typeList
  nameList_inside : p.nameList ≤ p.mapLength
  count : Sits raw p.typeStart (toBE 2 (c.types.length - 1))
  count_fits : c.types.length ≤ 2 ^ 16
  types_inside : p.typeList + 2 + 8 * c.types.length ≤ p.mapLength
  types : ∀ {i : Nat} {t : TypeEntry}, c.types[i]? = some t →
    TypeSits raw p (p.typeStart + 2 + 8 * i) (p.refList i) (p.ref i) t

/-! ## The loops -/

/-- What the fields of a reference record read as. -/
theorem RefSits.fields {raw : List UInt8} {p : Places} {ref : Nat} {place : RefPlace}
    {r : Resource} (h : RefSits raw p ref place r) (hid : -2 ^ 15 ≤ r.id ∧ r.id < 2 ^ 15) :
    signed 16 (be raw ref 2) = r.id ∧ be raw (ref + 5) 3 = place.data ∧
      be raw (p.dataOffset + place.data) 4 = r.payload.length ∧
      slice raw (p.dataOffset + place.data + 4)
        (p.dataOffset + place.data + 4 + r.payload.length) = r.payload := by
  have hrec := h.record
  simp only [refRecord, Sits.append_iff, List.length_append, toBE_length, List.length_singleton]
    at hrec
  obtain ⟨⟨⟨⟨hidSits, -⟩, -⟩, hdata⟩, -⟩ := hrec
  have hpay := h.payload
  rw [Sits.append_iff, toBE_length] at hpay
  refine ⟨?_, hdata.be_eq h.data_fits, hpay.1.be_eq h.payload_fits, hpay.2.slice_eq⟩
  rw [hidSits.be_eq (by omega)]
  exact signed_eq (by omega) hid.1 hid.2

/-- **The inner loop** appends the references still to come. -/
theorem parseRefs_laidOut {raw : List UInt8} {p : Places} (code : List UInt8) (rs : List Resource)
    {ref : Nat} {place : Nat → RefPlace} {typed : Typed}
    (hsits : ∀ {j : Nat} {r : Resource}, rs[j]? = some r →
      RefSits raw p (ref + 12 * j) (place j) r)
    (hfit : ∀ r ∈ rs, -2 ^ 15 ≤ r.id ∧ r.id < 2 ^ 15) (hnodup : (rs.map Resource.id).Nodup)
    (hfresh : ∀ r ∈ rs, r.id ∉ typed.keys) :
    ∃ typed', parseRefs raw p.dataOffset p.dataEnd code rs.length ref typed = .ok typed' ∧
      typed'.items = typed.items ++ rs.map fun r => (r.id, r.payload) := by
  induction rs generalizing ref place typed with
  | nil => exact ⟨typed, rfl, by simp⟩
  | cons r rs ih =>
    have hr : RefSits raw p ref (place 0) r := hsits (j := 0) rfl
    obtain ⟨hid, hdata, hlen, hpayload⟩ := hr.fields (hfit r List.mem_cons_self)
    have hin := hr.payload_inside
    have hnew : r.id ∉ typed.keys := hfresh r List.mem_cons_self
    rw [List.map_cons, List.nodup_cons] at hnodup
    have hkeys : (typed.set r.id r.payload).keys = typed.keys ++ [r.id] := by
      rw [Dict.keys, Dict.set_items_of_notMem _ hnew, List.map_append]
      rfl
    obtain ⟨typed', hrun, hitems⟩ := @ih (ref + 12) (fun j => place (j + 1))
      (typed.set r.id r.payload) (fun {j r'} hj => by
        have := hsits (j := j + 1) (r := r') (by simpa using hj)
        rwa [show ref + 12 * (j + 1) = ref + 12 + 12 * j by omega] at this)
      (fun r' hr' => hfit r' (List.mem_cons_of_mem _ hr')) hnodup.2
      (fun r' hr' hmem => by
        rw [hkeys, List.mem_append, List.mem_singleton] at hmem
        rcases hmem with hmem | hmem
        · exact hfresh r' (List.mem_cons_of_mem _ hr') hmem
        · exact hnodup.1 (hmem ▸ List.mem_map_of_mem hr'))
    refine ⟨typed', ?_, ?_⟩
    · rw [List.length_cons, parseRefs]
      simp only [hid, hdata, hlen, hpayload]
      rw [if_neg (by unfold Places.dataEnd; omega), if_neg (by unfold Places.dataEnd; omega),
        if_neg hnew]
      exact hrun
    · rw [hitems, Dict.set_items_of_notMem _ hnew, List.append_assoc]
      rfl

/-- The dictionary of one type. -/
def TypeEntry.items (t : TypeEntry) : List (Int × List UInt8) :=
  t.resources.map fun r => (r.id, r.payload)

/-- The dictionary holds exactly the given types, in order. -/
def Holds (resources : Dict (List UInt8) Typed) (ts : List TypeEntry) : Prop :=
  resources.items.map (fun e => (e.1, e.2.items)) = ts.map fun t => (t.code, t.items)

theorem Holds.keys {resources : Dict (List UInt8) Typed} {ts : List TypeEntry}
    (h : Holds resources ts) : resources.keys = ts.map TypeEntry.code := by
  have hmap := congrArg (List.map Prod.fst) h
  rw [List.map_map, List.map_map] at hmap
  exact hmap

/-- **The outer loop** appends the types still to come. -/
theorem parseTypes_laidOut {raw : List UInt8} {p : Places} (ts : List TypeEntry)
    {done : List TypeEntry} {entry : Nat} {refList : Nat → Nat} {place : Nat → Nat → RefPlace}
    {resources : Dict (List UInt8) Typed} (hdone : Holds resources done)
    (hsits : ∀ {i : Nat} {t : TypeEntry}, ts[i]? = some t →
      TypeSits raw p (entry + 8 * i) (refList i) (place i) t)
    (hcode : ∀ t ∈ ts, t.code.length = 4) (hinh : ∀ t ∈ ts, t.resources ≠ [])
    (hids : ∀ t ∈ ts, (t.resources.map Resource.id).Nodup)
    (hfit : ∀ t ∈ ts, ∀ r ∈ t.resources, -2 ^ 15 ≤ r.id ∧ r.id < 2 ^ 15)
    (hnodup : ((done ++ ts).map TypeEntry.code).Nodup) :
    ∃ resources', parseTypes raw p.dataOffset p.dataEnd p.typeStart p.mapEnd ts.length entry
        resources = .ok resources' ∧ Holds resources' (done ++ ts) := by
  induction ts generalizing done entry refList place resources with
  | nil => exact ⟨resources, rfl, by rwa [List.append_nil]⟩
  | cons t ts ih =>
    have ht : TypeSits raw p entry (refList 0) (place 0) t := hsits (i := 0) rfl
    have hmem : t ∈ t :: ts := List.mem_cons_self
    have hrec := ht.record
    simp only [Sits.append_iff, List.length_append, toBE_length, hcode t hmem] at hrec
    obtain ⟨⟨hcodeSits, hcount⟩, hlist⟩ := hrec
    have hslice := hcodeSits.slice_eq_of_length (hcode t hmem)
    have hpos := List.length_pos_iff.mpr (hinh t hmem)
    have hfits := ht.count_fits
    have hin := ht.refs_inside
    have hcountEq : be raw (entry + 4) 2 + 1 = t.resources.length := by
      rw [hcount.be_eq (by omega)]
      omega
    have hlistEq : be raw (entry + 6) 2 = refList 0 := hlist.be_eq ht.refList_fits
    have hnew : t.code ∉ resources.keys := by
      rw [hdone.keys]
      rw [List.map_append, List.map_cons] at hnodup
      exact fun hc => (List.nodup_append.mp hnodup).2.2 t.code hc t.code List.mem_cons_self rfl
    obtain ⟨typed, htyped, hitems⟩ := @parseRefs_laidOut raw p t.code t.resources _ _ Dict.empty
      ht.refs (hfit t hmem) (hids t hmem) fun _ _ => List.not_mem_nil
    have hdone' : Holds (resources.set t.code typed) (done ++ [t]) := by
      rw [Holds, Dict.set_items_of_notMem _ hnew, List.map_append, List.map_append, hdone]
      simp only [List.map_cons, List.map_nil, hitems]
      rfl
    obtain ⟨resources', hrun, hholds⟩ := @ih (done ++ [t]) (entry + 8) (fun i => refList (i + 1))
      (fun i => place (i + 1)) (resources.set t.code typed) hdone' (fun {i t'} hi => by
        have := hsits (i := i + 1) (t := t') (by simpa using hi)
        rwa [show entry + 8 * (i + 1) = entry + 8 + 8 * i by omega] at this)
      (fun t' h' => hcode t' (List.mem_cons_of_mem _ h'))
      (fun t' h' => hinh t' (List.mem_cons_of_mem _ h'))
      (fun t' h' => hids t' (List.mem_cons_of_mem _ h'))
      (fun t' h' => hfit t' (List.mem_cons_of_mem _ h'))
      (by rwa [List.append_assoc, List.singleton_append])
    rw [List.append_assoc, List.singleton_append] at hholds
    refine ⟨resources', ?_, hholds⟩
    rw [List.length_cons, parseTypes]
    simp only [hslice, hcountEq, hlistEq]
    rw [if_neg (by simp only [Places.typeStart, Places.mapEnd]; omega),
      Dict.get?_eq_none_iff.mpr hnew, Option.getD_none, htyped]
    exact hrun

/-! ## What the parsed fork answers -/

theorem Holds.get?_code {resources : Dict (List UInt8) Typed} {ts : List TypeEntry}
    (h : Holds resources ts) {t : TypeEntry} (ht : t ∈ ts) :
    ∃ typed, resources.get? t.code = some typed ∧ typed.items = t.items := by
  have hmem : (t.code, t.items) ∈ ts.map fun t => (t.code, t.items) := List.mem_map_of_mem ht
  rw [← h, List.mem_map] at hmem
  obtain ⟨⟨code, typed⟩, he, heq⟩ := hmem
  rw [Prod.mk.injEq] at heq
  obtain ⟨rfl, hitems⟩ := heq
  exact ⟨typed, Dict.get?_eq_some_iff.mpr he, hitems⟩

theorem Holds.get?_none {resources : Dict (List UInt8) Typed} {ts : List TypeEntry}
    (h : Holds resources ts) {code : List UInt8} (hc : ∀ t ∈ ts, t.code ≠ code) :
    resources.get? code = none := by
  rw [Dict.get?_eq_none_iff, h.keys, List.mem_map]
  rintro ⟨t, ht, rfl⟩
  exact hc t ht rfl

namespace ResourceFork

variable {fork : ResourceFork} {ts : List TypeEntry} {code : TypeCode}

theorem ids_eq (h : Holds fork.resources ts) {t : TypeEntry} (ht : t ∈ ts)
    (hcode : typeBytes code = .ok t.code) : fork.ids code = .ok (t.resources.map Resource.id) := by
  obtain ⟨typed, hget, hitems⟩ := h.get?_code ht
  have hkeys : typed.keys = t.resources.map Resource.id := by
    rw [Dict.keys, hitems, TypeEntry.items, List.map_map]
    rfl
  rw [ids_of_typeBytes hcode, ResourceFork.typed, hget, Option.getD_some, hkeys]

theorem ids_unknown (h : Holds fork.resources ts) {raw : List UInt8}
    (hcode : typeBytes code = .ok raw) (hraw : ∀ t ∈ ts, t.code ≠ raw) :
    fork.ids code = .ok [] := by
  rw [ids_of_typeBytes hcode, typed, h.get?_none hraw]
  rfl

theorem get_eq (h : Holds fork.resources ts) {t : TypeEntry} (ht : t ∈ ts)
    (hcode : typeBytes code = .ok t.code) {r : Resource} (hr : r ∈ t.resources) :
    fork.get code r.id = .ok (some r.payload) := by
  obtain ⟨typed, hget, hitems⟩ := h.get?_code ht
  have hmem : (r.id, r.payload) ∈ typed.items := by
    rw [hitems]
    exact List.mem_map_of_mem hr
  rw [get_of_typeBytes hcode, ResourceFork.typed, hget, Option.getD_some,
    Dict.get?_eq_some_iff.mpr hmem]

theorem get_missing (h : Holds fork.resources ts) {raw : List UInt8}
    (hcode : typeBytes code = .ok raw) {id : Int}
    (hnone : ∀ t ∈ ts, t.code = raw → ∀ r ∈ t.resources, r.id ≠ id) :
    fork.get code id = .ok none := by
  rw [get_of_typeBytes hcode, ResourceFork.typed]
  refine congrArg Except.ok ?_
  by_cases hraw : ∃ t ∈ ts, t.code = raw
  · obtain ⟨t, ht, rfl⟩ := hraw
    obtain ⟨typed, hget, hitems⟩ := h.get?_code ht
    rw [hget, Option.getD_some, Dict.get?_eq_none_iff, Dict.keys, hitems, List.mem_map]
    rintro ⟨e, he, heq⟩
    obtain ⟨r, hr, rfl⟩ := List.mem_map.mp he
    exact hnone t ht rfl r hr heq
  · push Not at hraw
    rw [h.get?_none hraw]
    rfl

end ResourceFork

/-- **Parsing undoes the layout**: the types, the ids of each type and the payload of each
resource are the ones laid out, in map order, and nothing else is in the fork. -/
theorem parse_laidOut {raw : List UInt8} {c : Collection} {p : Places} (h : LaidOut raw c p) :
    ∃ fork, parse raw = .ok fork ∧ fork.types = c.types.map TypeEntry.code ∧
      (∀ code, ∀ t ∈ c.types, typeBytes code = .ok t.code →
        fork.ids code = .ok (t.resources.map Resource.id) ∧
          ∀ r ∈ t.resources, fork.get code r.id = .ok (some r.payload)) ∧
      ∀ code value, typeBytes code = .ok value →
        ((∀ t ∈ c.types, t.code ≠ value) → fork.ids code = .ok []) ∧
          ∀ id, (∀ t ∈ c.types, t.code = value → ∀ r ∈ t.resources, r.id ≠ id) →
            fork.get code id = .ok none := by
  have hheader := h.header
  have hlists := h.lists
  simp only [Sits.append_iff, List.length_append, toBE_length] at hheader hlists
  obtain ⟨⟨⟨h0, h4⟩, h8⟩, h12⟩ := hheader
  obtain ⟨hd, hm, hdl, hml⟩ := h.header_fits
  obtain ⟨hdin, hmin⟩ := h.areas_inside
  have hafter := h.typeList_after
  have htin := h.types_inside
  have hname := h.nameList_inside
  have hcfit := h.count_fits
  have hpos := List.length_pos_iff.mpr c.nonempty
  have hlen : 16 ≤ raw.length := by
    have := h12.length_le (by simp [toBE])
    rwa [toBE_length] at this
  have hcount : be raw p.typeStart 2 + 1 = c.types.length := by
    rw [h.count.be_eq (by omega)]
    omega
  obtain ⟨resources, hrun, hholds⟩ := @parseTypes_laidOut raw p c.types [] _ _ _ Dict.empty rfl
    h.types c.code_length c.inhabited c.ids_nodup c.ids_fit c.codes_nodup
  rw [List.nil_append] at hholds
  refine ⟨⟨raw, resources⟩, ?_, hholds.keys, fun code t ht hcode =>
    ⟨ResourceFork.ids_eq hholds ht hcode, fun r hr => ResourceFork.get_eq hholds ht hcode hr⟩,
    fun code value hcode => ⟨ResourceFork.ids_unknown hholds hcode,
      fun id => ResourceFork.get_missing hholds hcode⟩⟩
  simp only [parse]
  rw [if_neg (by omega), h0.be_eq hd, h4.be_eq hm, h8.be_eq hdl, h12.be_eq hml,
    hlists.1.be_eq h.lists_fit.1, hlists.2.be_eq h.lists_fit.2]
  simp only [Places.dataEnd, Places.mapEnd, Places.typeStart] at *
  rw [if_neg (by omega), if_neg (by omega), if_neg (by omega), hcount, if_neg (by omega), hrun]
  rfl

/-! ## A fork with three resources -/

/-- Two strings, the first with the name `A`, and an empty code resource. -/
def threeResources : Collection where
  types := [⟨[0x53, 0x54, 0x52, 0x20], [⟨-3, 0, some [0x41], [7, 8]⟩, ⟨128, 0x20, none, [9]⟩]⟩,
    ⟨[0x43, 0x4F, 0x44, 0x45], [⟨0, 0, none, []⟩]⟩]
  nonempty := by decide
  code_length := by decide
  codes_nodup := by decide
  inhabited := by decide
  ids_nodup := by decide
  ids_fit := by decide

/-- Data area at 16, map at 31, type list and name list at 28 and 82 of the map. -/
def threeResourcesPlaces : Places where
  dataOffset := 16
  dataLength := 15
  mapOffset := 31
  mapLength := 84
  typeList := 28
  nameList := 82
  refList i := if i = 0 then 18 else 42
  ref i j :=
    if i = 0 then if j = 0 then ⟨0, 0, [0, 0, 0, 0]⟩ else ⟨6, 0xFFFF, [0, 0, 0, 0]⟩
    else ⟨11, 0xFFFF, [0, 0, 0, 0]⟩

/-- The bytes of that fork. -/
def threeResourcesFork : List UInt8 :=
  [0, 0, 0, 16, 0, 0, 0, 31, 0, 0, 0, 15, 0, 0, 0, 84,
   0, 0, 0, 2, 7, 8, 0, 0, 0, 1, 9, 0, 0, 0, 0,
   0, 0, 0, 16, 0, 0, 0, 31, 0, 0, 0, 15, 0, 0, 0, 84,
   0, 0, 0, 0, 0, 0, 0, 0, 0, 28, 0, 82,
   0, 1, 0x53, 0x54, 0x52, 0x20, 0, 1, 0, 18, 0x43, 0x4F, 0x44, 0x45, 0, 0, 0, 42,
   0xFF, 0xFD, 0, 0, 0, 0, 0, 0, 0, 0, 0, 0,
   0, 128, 0xFF, 0xFF, 0x20, 0, 0, 6, 0, 0, 0, 0,
   0, 0, 0xFF, 0xFF, 0, 0, 0, 11, 0, 0, 0, 0,
   1, 0x41]

theorem threeResourcesFork_laidOut :
    LaidOut threeResourcesFork threeResources threeResourcesPlaces where
  header := by decide
  header_fits := by decide
  areas_inside := by decide
  lists := by decide
  lists_fit := by decide
  typeList_after := by decide
  nameList_inside := by decide
  count := by decide
  count_fits := by decide
  types_inside := by decide
  types {i t} ht := by
    match i, ht with
    | 0, ht =>
      cases ht
      refine ⟨by decide, by decide, by decide, by decide, fun {j r} hr => ?_⟩
      match j, hr with
      | 0, hr =>
        cases hr
        exact ⟨by decide, by decide, by decide, by decide, by decide, by decide, by decide,
          by decide, by decide⟩
      | 1, hr =>
        cases hr
        exact ⟨by decide, by decide, by decide, by decide, by decide, by decide, rfl⟩
    | 1, ht =>
      cases ht
      refine ⟨by decide, by decide, by decide, by decide, fun {j r} hr => ?_⟩
      match j, hr with
      | 0, hr =>
        cases hr
        exact ⟨by decide, by decide, by decide, by decide, by decide, by decide, rfl⟩

theorem parse_laidOut_threeResources :
    LaidOut threeResourcesFork threeResources threeResourcesPlaces ∧
      ∃ fork, parse threeResourcesFork = .ok fork ∧
        fork.types = [[0x53, 0x54, 0x52, 0x20], [0x43, 0x4F, 0x44, 0x45]] ∧
        fork.ids (.str "STR ".toList) = .ok [-3, 128] ∧
        fork.get (.str "STR ".toList) 128 = .ok (some [9]) ∧
        fork.get (.str "STR ".toList) 5 = .ok none ∧
        fork.get (.str "CODE".toList) 0 = .ok (some []) := by
  obtain ⟨fork, hparse, htypes, hin, hout⟩ := parse_laidOut threeResourcesFork_laidOut
  have hstrings := hin (.str "STR ".toList) ⟨[0x53, 0x54, 0x52, 0x20],
    [⟨-3, 0, some [0x41], [7, 8]⟩, ⟨128, 0x20, none, [9]⟩]⟩ List.mem_cons_self (by decide)
  have hcode := hin (.str "CODE".toList) ⟨[0x43, 0x4F, 0x44, 0x45], [⟨0, 0, none, []⟩]⟩
    (List.mem_cons_of_mem _ List.mem_cons_self) (by decide)
  have hnone := (hout (.str "STR ".toList) [0x53, 0x54, 0x52, 0x20] (by decide)).2 5 (by decide)
  exact ⟨threeResourcesFork_laidOut, fork, hparse, htypes, hstrings.1,
    hstrings.2 _ (List.mem_cons_of_mem _ List.mem_cons_self), hnone,
    hcode.2 _ List.mem_cons_self⟩

end Cwhost.Resources
