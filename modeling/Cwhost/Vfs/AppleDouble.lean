import Cwhost.Lib.Layout
import Cwhost.Vfs.Host

/-!
# AppleDouble files (`appledouble.py`)

The container that keeps a resource fork and the Finder data beside a file. `AppleDouble.parse` and
`AppleDouble.pack` are the two directions of the format, `AppleDouble.read` and `AppleDouble.write`
the same on a file of the host. `AppleDouble.parse_pack`: what was packed is parsed back.
-/

namespace Cwhost.Vfs

open Lib

/-- `AppleDouble`: the entries by identifier, in the order they were set. -/
structure AppleDouble where
  entries : Dict Nat (List UInt8)

namespace AppleDouble

/-- `_MAGIC`. -/
def magic : Nat := 0x00051607

/-- `_VERSION`. -/
def version : Nat := 0x00020000

/-- The size of the header, up to the entry descriptors. -/
def headerSize : Nat := 26

/-- `AppleDouble.new`. -/
def new : AppleDouble := ⟨.empty⟩

/-- The record `index` of the entry table: identifier, offset, length. -/
def tableRecord (data : List UInt8) (index : Nat) : Nat × Nat × Nat :=
  let start := headerSize + 12 * index
  (beNat (slice data start (start + 4)), beNat (slice data (start + 4) (start + 8)),
    beNat (slice data (start + 8) (start + 12)))

/-- The loop of `read`, for `count` records from `index` on. -/
def parseEntries (data : List UInt8) (path : String) (tableEnd : Nat) :
    Nat → Nat → Dict Nat (List UInt8) → Except Exc (Dict Nat (List UInt8))
  | 0, _, entries => pure entries
  | count + 1, index, entries => do
    let (entryId, offset, length) := tableRecord data index
    if offset < tableEnd ∨ offset + length > data.length then
      throw (.hostError s!"invalid AppleDouble entry {entryId} in {path}")
    if (entries.get? entryId).isSome then
      throw (.hostError s!"duplicate AppleDouble entry {entryId} in {path}")
    parseEntries data path tableEnd count (index + 1)
      (entries.set entryId (slice data offset (offset + length)))

/-- `read`, after the bytes of the file were read. -/
def parse (data : List UInt8) (path : String) : Except Exc AppleDouble := do
  if data.length < headerSize then
    throw (.hostError s!"truncated AppleDouble header: {path}")
  if beNat (slice data 0 4) ≠ magic ∨ beNat (slice data 4 8) ≠ version then
    throw (.hostError s!"invalid AppleDouble header: {path}")
  let count := beNat (slice data 24 26)
  let tableEnd := headerSize + 12 * count
  if tableEnd > data.length then
    throw (.hostError s!"truncated AppleDouble entry table: {path}")
  let entries ← parseEntries data path tableEnd count 0 .empty
  return ⟨entries⟩

/-- The loop of `write`: the records and the payload of the entries, the payload from `offset`
on. -/
def packEntries : List (Nat × List UInt8) → Nat → Except Exc (List UInt8 × List UInt8)
  | [], _ => pure ([], [])
  | (entryId, value) :: rest, offset => do
    if entryId > 0xFFFFFFFF then
      throw (.hostError s!"invalid AppleDouble entry id {entryId}")
    if offset ≥ 2 ^ 32 ∨ value.length ≥ 2 ^ 32 then throw .structError
    let (records, payload) ← packEntries rest (offset + value.length)
    return (toBE 4 entryId ++ toBE 4 offset ++ toBE 4 value.length ++ records, value ++ payload)

/-- The bytes `write` makes of the entries. -/
def pack (ad : AppleDouble) : Except Exc (List UInt8) := do
  let count := ad.entries.items.length
  if count ≥ 2 ^ 16 then throw .structError
  let (records, payload) ← packEntries ad.entries.items (headerSize + 12 * count)
  return toBE 4 magic ++ toBE 4 version ++ List.replicate 16 0 ++ toBE 2 count ++ records ++ payload

/-- `read`. -/
def read (env : HostEnv) (path : Path) : EStateM Exc Tree AppleDouble := do
  let text := String.ofList (pathText path)
  let data ← mapError (fun e => .hostError s!"cannot read AppleDouble file {text}: {e.text}")
    (readBytes env path)
  ofExcept (parse data text)

/-- `write`. An `OSError` of the first line escapes. -/
def write (env : HostEnv) (ad : AppleDouble) (path : Path) : EStateM Exc Tree Unit := do
  let text := String.ofList (pathText path)
  mapError (fun e => .osError e.text) (mkdirs env path.tail)
  let output ← ofExcept ad.pack
  mapError (fun e => .hostError s!"cannot write AppleDouble file {text}: {e.text}")
    (writeBytes env path output)

/-! ## Reading what was written -/

/-- A packed entry, and the rest. -/
theorem packEntries_cons {entryId offset : Nat} {value : List UInt8}
    {rest : List (Nat × List UInt8)} {records payload : List UInt8}
    (h : packEntries ((entryId, value) :: rest) offset = .ok (records, payload)) :
    entryId < 256 ^ 4 ∧ offset < 256 ^ 4 ∧ value.length < 256 ^ 4 ∧ ∃ records' payload',
      packEntries rest (offset + value.length) = .ok (records', payload') ∧
      records = toBE 4 entryId ++ toBE 4 offset ++ toBE 4 value.length ++ records' ∧
      payload = value ++ payload' := by
  rw [packEntries] at h
  by_cases hid : entryId > 0xFFFFFFFF
  · rw [if_pos hid] at h
    cases h
  by_cases hfit : offset ≥ 2 ^ 32 ∨ value.length ≥ 2 ^ 32
  · rw [if_neg hid, if_pos hfit] at h
    cases h
  rw [if_neg hid, if_neg hfit] at h
  obtain ⟨packed, hrest, h⟩ := bind_eq_ok h
  cases h
  exact ⟨by omega, by omega, by omega, packed.1, packed.2, hrest, rfl, rfl⟩

theorem tableRecord_eq {data : List UInt8} {index entryId offset length : Nat}
    {records : List UInt8} (hid : entryId < 256 ^ 4) (hoffset : offset < 256 ^ 4)
    (hlength : length < 256 ^ 4)
    (h : Sits data (headerSize + 12 * index)
      (toBE 4 entryId ++ toBE 4 offset ++ toBE 4 length ++ records)) :
    tableRecord data index = (entryId, offset, length) := by
  simp only [Sits.append_iff, List.length_append, toBE_length] at h
  obtain ⟨⟨⟨h₀, h₁⟩, h₂⟩, -⟩ := h
  have e₀ := h₀.be_eq hid
  have e₁ := h₁.be_eq hoffset
  have e₂ := h₂.be_eq hlength
  simp only [be, Nat.add_assoc] at e₀ e₁ e₂
  simp only [tableRecord, Nat.add_assoc, e₀, e₁, e₂]

/-- **The loop of `read`** gives back the entries that the loop of `write` has packed. -/
theorem parseEntries_packed {data : List UInt8} {path : String} {tableEnd : Nat}
    (items : List (Nat × List UInt8)) {index offset : Nat} {entries : Dict Nat (List UInt8)}
    {records payload : List UInt8} (h : packEntries items offset = .ok (records, payload))
    (hrecords : Sits data (headerSize + 12 * index) records)
    (hpayload : Sits data offset payload) (hend : offset + payload.length ≤ data.length)
    (htable : tableEnd ≤ offset) (hkeys : ((entries.items ++ items).map Prod.fst).Nodup) :
    ∃ d, parseEntries data path tableEnd items.length index entries = .ok d ∧
      d.items = entries.items ++ items := by
  induction items generalizing index offset entries records payload with
  | nil => exact ⟨entries, rfl, (List.append_nil _).symm⟩
  | cons item items ih =>
    obtain ⟨entryId, value⟩ := item
    obtain ⟨hid, hoffset, hlength, records', payload', hrest, rfl, rfl⟩ := packEntries_cons h
    have hrecord := tableRecord_eq hid hoffset hlength hrecords
    have hnew : entryId ∉ entries.keys := by
      rw [List.map_append, List.map_cons] at hkeys
      exact fun hmem => (List.nodup_append.mp hkeys).2.2 _ hmem _ List.mem_cons_self rfl
    have hset := Dict.set_items_of_notMem value hnew
    have hrecords' : Sits data (headerSize + 12 * (index + 1)) records' := by
      have := hrecords.right
      simp only [List.length_append, toBE_length] at this
      rwa [Nat.mul_add, ← Nat.add_assoc]
    rw [List.length_append] at hend
    have hkeys' : (((entries.set entryId value).items ++ items).map Prod.fst).Nodup := by
      rwa [hset, List.append_assoc]
    obtain ⟨d, hd, hitems⟩ := ih hrest hrecords' hpayload.right (by omega) (by omega) hkeys'
    refine ⟨d, ?_, by rw [hitems, hset, List.append_assoc]; rfl⟩
    have hget : (entries.get? entryId).isSome = false := by
      rw [Dict.get?_eq_none_iff.mpr hnew]
      rfl
    rw [List.length_cons, parseEntries, hrecord]
    simp only [hget, hpayload.left.slice_eq, Bool.false_eq_true, if_false]
    rw [if_neg (by omega)]
    exact hd

theorem packEntries_length {items : List (Nat × List UInt8)} {offset : Nat}
    {records payload : List UInt8} (h : packEntries items offset = .ok (records, payload)) :
    records.length = 12 * items.length := by
  induction items generalizing offset records payload with
  | nil =>
    cases h
    rfl
  | cons item items ih =>
    obtain ⟨-, -, -, records', payload', hrest, rfl, -⟩ := packEntries_cons h
    simp only [List.length_append, toBE_length, ih hrest, List.length_cons]
    omega

/-- **Reading what was written**: `read` of the bytes `write` makes gives the entries back. -/
theorem parse_pack {ad : AppleDouble} {data : List UInt8} (h : ad.pack = .ok data)
    (path : String) : parse data path = .ok ad := by
  unfold pack at h
  by_cases hcount : ad.entries.items.length ≥ 2 ^ 16
  · rw [if_pos hcount] at h
    cases h
  rw [if_neg hcount] at h
  obtain ⟨⟨records, payload⟩, hpack, h⟩ := bind_eq_ok h
  have hdata := (Except.ok.inj h).symm
  have hlen := packEntries_length hpack
  have hsits : Sits data 0 data := List.prefix_refl data
  have hsize := congrArg List.length hdata
  conv at hsits => rhs; rw [hdata]
  simp only [Sits.append_iff, List.length_append, toBE_length, List.length_replicate, hlen,
    Nat.zero_add] at hsits hsize
  obtain ⟨⟨⟨⟨⟨hmagic, hversion⟩, -⟩, hcountSits⟩, hrecords⟩, hpayload⟩ := hsits
  have hmagic : beNat (slice data 0 4) = magic := hmagic.be_eq (by decide)
  have hversion : beNat (slice data 4 8) = version := hversion.be_eq (by decide)
  have hcountSits : beNat (slice data 24 26) = ad.entries.items.length :=
    hcountSits.be_eq (by omega)
  have hend : headerSize + 12 * ad.entries.items.length + payload.length ≤ data.length := by
    unfold headerSize
    omega
  obtain ⟨d, hd, hitems⟩ : ∃ d, parseEntries data path (headerSize + 12 * ad.entries.items.length)
      ad.entries.items.length 0 .empty = .ok d ∧ d.items = Dict.empty.items ++ ad.entries.items :=
    parseEntries_packed ad.entries.items hpack hrecords hpayload hend le_rfl ad.entries.nodup
  have hentries : d = ad.entries := Dict.eq_of_items hitems
  unfold parse
  rw [if_neg (by unfold headerSize; omega),
    if_neg (not_or.mpr ⟨not_not.mpr hmagic, not_not.mpr hversion⟩)]
  simp only [hcountSits]
  rw [if_neg (by omega), hd, hentries]
  rfl

/-! ## What they do to the host -/

/-- Reading leaves the tree alone. -/
theorem read_spec {env : HostEnv} {t : Tree} (path : Path) :
    wp (read env path) (fun _ t' => t' = t) (fun _ t' => t' = t) t := by
  simp only [read, wp_bind, wp_mapError, readBytes, wp_get]
  refine refuse_spec _ ?_ fun _ => rfl
  split
  · exact wp_ofExcept (fun _ _ => rfl) fun _ _ => rfl
  · rfl
  · rfl

/-- Writing adds entries on the way to the file, also when it fails. -/
theorem write_spec {env : HostEnv} {t : Tree} (ad : AppleDouble) (path : Path) :
    wp (write env ad path) (fun _ t' => Grows (towards path) t t')
      (fun _ t' => Grows (towards path) t t') t := by
  have hself : ∀ q, q = path → towards path q := fun q h => h ▸ List.suffix_refl q
  have htail : ∀ q, towards path.tail q → towards path q :=
    fun _ h => h.trans (List.tail_suffix path)
  simp only [write, wp_bind, wp_mapError]
  refine wp_mono (mkdirs_spec path.tail) (fun _ t₁ h₁ => ?_) fun _ _ h => h.mono htail
  refine wp_ofExcept (fun output _ => ?_) fun _ _ => h₁.mono htail
  exact wp_mono (writeBytes_spec path output)
    (fun _ _ h => (h₁.mono htail).trans (h.mono hself))
    fun _ _ h => (h₁.mono htail).trans (h.mono hself)

/-- What `read` gives when the host does not refuse. -/
def held (t : Tree) (path : Path) : Option AppleDouble :=
  (t.look path).bind fun e =>
    e.content.bind fun data => (parse data (String.ofList (pathText path))).toOption

theorem read_held {env : HostEnv} {t : Tree} (path : Path) :
    wp (read env path) (fun ad t' => t' = t ∧ held t path = some ad)
      (fun _ t' => t' = t ∧ (env.deny t (.read path) = none → held t path = none)) t := by
  simp only [read, wp_bind, wp_mapError, readBytes, refuse, wp_get]
  cases hdeny : env.deny t (.read path) with
  | some e => exact ⟨rfl, fun h => by cases h⟩
  | none =>
    simp only [wp_pure]
    split
    · rename_i attrs data hlook
      refine wp_ofExcept (fun ad hparse => ⟨rfl, ?_⟩) fun e hparse => ⟨rfl, fun _ => ?_⟩
      · simp only [held, hlook, Option.bind_some, hparse, Except.toOption]
      · simp only [held, hlook, Option.bind_some, hparse, Except.toOption]
    · rename_i attrs hlook
      exact ⟨rfl, fun _ => by simp only [held, hlook, Option.bind_some, Option.bind_none]⟩
    · rename_i hlook
      exact ⟨rfl, fun _ => by simp only [held, hlook, Option.bind_none]⟩

/-- **Writing a container** into a directory that is there stores it or fails without a change,
where the host does not break off. -/
theorem write_held {env : HostEnv} {t : Tree} (ad : AppleDouble) {path : Path}
    (hdir : t.has path.tail = true) (hdeny : ∀ t' data, env.deny t' (.write path data) = none) :
    wp (write env ad path)
      (fun _ t' => held t' path = some ad ∧ t'.has path = true ∧
        ∀ q, q ≠ path → t'.look q = t.look q)
      (fun _ t' => t' = t) t := by
  simp only [write, wp_bind, wp_mapError]
  refine wp_mono (mkdirs_present hdir) (fun _ t₁ h₁ => ?_) fun _ _ h => h
  subst h₁
  refine wp_ofExcept (fun output hpack => ?_) fun _ _ => rfl
  refine wp_mono (writeBytes_stored fun t' => hdeny t' output) (fun _ t' h => ?_) fun _ _ h => h
  obtain ⟨attrs, hlook⟩ := h.content
  refine ⟨?_, DirTree.has_iff.mpr ⟨_, hlook⟩, fun q hq => h.others hq⟩
  simp only [held, hlook, Option.bind_some, parse_pack hpack, Except.toOption]

end AppleDouble

end Cwhost.Vfs
