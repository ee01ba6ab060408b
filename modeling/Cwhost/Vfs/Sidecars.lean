import Cwhost.Pef.Reads
import Cwhost.Vfs.Mutations

/-!
# AppleDouble sidecars (`appledouble.py`, `Node._write_sidecar_entry`)

A file is `Tabled` when its table names the entries: each record a slice behind the table and inside
the file, in any order, with gaps and overlaps. `parse` answers such entries or fails with
`HostError` (`parse_tabled`), and `parseAt`, the parser with every read as the source makes it,
shows that no read leaves the file (`parseAt_parses`).

In the other direction the format has limits: `WithinLimits` is 32-bit identifiers, at most 65535
entries and a file below 4 GiB, and inside them `pack` does not fail (`pack_ok`). Whatever the host
does, a write that has ended normally is read back (`write_reads`); a write that fails was refused
by the host (`HostRefuses`).
-/

namespace Cwhost.Vfs

open Lib
open Pef (HostFailure unpackFrom unpackFrom_bind parsesIn_hostError)

namespace AppleDouble

/-! ## What the table of a file names -/

/-- The number of records of the table. -/
def tableCount (data : List UInt8) : Nat := beNat (slice data 24 26)

/-- The end of the table. -/
def tableEnd (data : List UInt8) : Nat := headerSize + 12 * tableCount data

/-- The entry the record `index` names. -/
def namedEntry (data : List UInt8) (index : Nat) : Nat × List UInt8 :=
  let (entryId, offset, length) := tableRecord data index
  (entryId, slice data offset (offset + length))

/-- The record `index` names a range behind the table and inside the file. -/
def RecordInside (data : List UInt8) (tableEnd index : Nat) : Prop :=
  let (_, offset, length) := tableRecord data index
  tableEnd ≤ offset ∧ offset + length ≤ data.length

/-- `entries` are the slices that the table of `data` names, in the table's order. -/
structure Tabled (data : List UInt8) (entries : Dict Nat (List UInt8)) : Prop where
  header : headerSize ≤ data.length
  magic : beNat (slice data 0 4) = magic
  version : beNat (slice data 4 8) = version
  table : tableEnd data ≤ data.length
  inside : ∀ index < tableCount data, RecordInside data (tableEnd data) index
  items : entries.items = (List.range (tableCount data)).map (namedEntry data)

/-- What the loop of `read` has done when it returns. -/
theorem parseEntries_named {data : List UInt8} {path : String} {tableEnd count index : Nat}
    {entries d : Dict Nat (List UInt8)}
    (h : parseEntries data path tableEnd count index entries = .ok d) :
    (∀ i, index ≤ i → i < index + count → RecordInside data tableEnd i) ∧
      d.items = entries.items ++ (List.range' index count).map (namedEntry data) := by
  induction count generalizing index entries with
  | zero =>
    cases h
    exact ⟨fun i h₁ h₂ => absurd h₂ (by omega), (List.append_nil _).symm⟩
  | succ count ih =>
    rcases hrecord : tableRecord data index with ⟨entryId, offset, length⟩
    rw [parseEntries, hrecord] at h
    simp only at h
    by_cases hrange : offset < tableEnd ∨ offset + length > data.length
    · rw [if_pos hrange] at h
      cases h
    rw [if_neg hrange] at h
    by_cases hdup : (entries.get? entryId).isSome
    · rw [if_pos hdup] at h
      cases h
    rw [if_neg hdup] at h
    obtain ⟨hinside, hitems⟩ := ih h
    have hnew : entryId ∉ entries.keys := by
      rw [← Dict.get?_eq_none_iff]
      simpa using hdup
    refine ⟨fun i h₁ h₂ => ?_, ?_⟩
    · rcases Nat.eq_or_lt_of_le h₁ with rfl | hlt
      · rw [RecordInside, hrecord]
        rwa [not_or, not_lt, not_lt] at hrange
      · exact hinside i hlt (by omega)
    · rw [hitems, Dict.set_items_of_notMem _ hnew, List.append_assoc, List.range'_succ,
        List.map_cons, namedEntry, hrecord]
      rfl

/-- **What `read` accepts** is a table of slices. -/
theorem parse_tabled {data : List UInt8} {path : String} {ad : AppleDouble}
    (h : parse data path = .ok ad) : Tabled data ad.entries := by
  unfold parse at h
  by_cases hheader : data.length < headerSize
  · rw [if_pos hheader] at h
    cases h
  by_cases hmagic : beNat (slice data 0 4) ≠ AppleDouble.magic ∨
      beNat (slice data 4 8) ≠ AppleDouble.version
  · rw [if_neg hheader, if_pos hmagic] at h
    cases h
  by_cases htable : headerSize + 12 * beNat (slice data 24 26) > data.length
  · simp only [if_neg hheader, if_neg hmagic] at h
    rw [if_pos htable] at h
    cases h
  simp only [if_neg hheader, if_neg hmagic] at h
  rw [if_neg htable] at h
  obtain ⟨entries, hentries, h⟩ := bind_eq_ok h
  cases h
  obtain ⟨hinside, hitems⟩ := parseEntries_named hentries
  rw [not_or, not_not, not_not] at hmagic
  refine ⟨not_lt.mp hheader, hmagic.1, hmagic.2, not_lt.mp htable, fun i hi => ?_, ?_⟩
  · exact hinside i (Nat.zero_le i) (by rwa [Nat.zero_add])
  · rw [hitems, List.range_eq_range']
    rfl

/-! ## The parser, read by read -/

/-- The loop of `read`. -/
def entriesAt (data : List UInt8) (path : String) (tableEnd : Nat) :
    Nat → Nat → Dict Nat (List UInt8) → ReadM Exc (Dict Nat (List UInt8))
  | 0, _, entries => pure entries
  | count + 1, index, entries => do
    unpackFrom data (headerSize + 12 * index) 12
    let (entryId, offset, length) := tableRecord data index
    if offset < tableEnd ∨ offset + length > data.length then
      throw (.hostError s!"invalid AppleDouble entry {entryId} in {path}")
    if (entries.get? entryId).isSome then
      throw (.hostError s!"duplicate AppleDouble entry {entryId} in {path}")
    let value ← sliceAt data offset (offset + length)
    entriesAt data path tableEnd count (index + 1) (entries.set entryId value)

/-- `read`, after the bytes of the file were read. -/
def parseAt (data : List UInt8) (path : String) : ReadM Exc AppleDouble := do
  if data.length < headerSize then
    throw (.hostError s!"truncated AppleDouble header: {path}")
  unpackFrom data 0 8
  if beNat (slice data 0 4) ≠ magic ∨ beNat (slice data 4 8) ≠ version then
    throw (.hostError s!"invalid AppleDouble header: {path}")
  unpackFrom data 24 2
  let count := beNat (slice data 24 26)
  let tableEnd := headerSize + 12 * count
  if tableEnd > data.length then
    throw (.hostError s!"truncated AppleDouble entry table: {path}")
  let entries ← entriesAt data path tableEnd count 0 .empty
  return ⟨entries⟩

theorem entriesAt_parses {data : List UInt8} {path : String} {tableEnd : Nat} :
    ∀ (count index : Nat) (entries : Dict Nat (List UInt8)),
      headerSize + 12 * (index + count) ≤ data.length → index + count < 2 ^ 32 →
      ParsesIn HostFailure (entriesAt data path tableEnd count index entries)
        (parseEntries data path tableEnd count index entries)
  | 0, _, entries, _, _ => Mirrors.pure entries
  | count + 1, index, entries, hend, hindex => by
    rw [entriesAt, parseEntries]
    refine unpackFrom_bind (by omega) (by unfold headerSize; omega) ?_
    rcases tableRecord data index with ⟨entryId, offset, length⟩
    simp only
    by_cases hrange : offset < tableEnd ∨ offset + length > data.length
    · rw [if_pos hrange, if_pos hrange]
      exact parsesIn_hostError
    rw [if_neg hrange, if_neg hrange]
    by_cases hdup : (entries.get? entryId).isSome
    · rw [if_pos hdup, if_pos hdup]
      exact parsesIn_hostError
    rw [if_neg hdup, if_neg hdup]
    refine sliceAt_bind (Nat.le_add_right _ _) (by omega) ?_
    exact entriesAt_parses count (index + 1) _ (by omega) (by omega)

/-- **Every read stays inside the file**, and every exception is `HostError`. -/
theorem parseAt_parses (data : List UInt8) (path : String) :
    ParsesIn HostFailure (parseAt data path) (parse data path) := by
  have hcount : beNat (slice data 24 26) < 2 ^ 16 := by
    refine (beNat_lt _).trans_le ?_
    refine (Nat.pow_le_pow_right (by omega) (List.length_take_le 2 _)).trans ?_
    decide
  unfold parseAt parse
  by_cases hheader : data.length < headerSize
  · rw [if_pos hheader, if_pos hheader]
    exact parsesIn_hostError
  have hlen : headerSize ≤ data.length := not_lt.mp hheader
  unfold headerSize at hlen
  rw [if_neg hheader, if_neg hheader]
  refine unpackFrom_bind (by omega) (by omega) ?_
  by_cases hmagic : beNat (slice data 0 4) ≠ AppleDouble.magic ∨
      beNat (slice data 4 8) ≠ AppleDouble.version
  · rw [if_pos hmagic, if_pos hmagic]
    exact parsesIn_hostError
  rw [if_neg hmagic, if_neg hmagic]
  refine unpackFrom_bind (by omega) (by omega) ?_
  by_cases htable : headerSize + 12 * beNat (slice data 24 26) > data.length
  · simp only [if_pos htable]
    exact parsesIn_hostError
  simp only [if_neg htable]
  refine parsesIn_bind (entriesAt_parses _ _ _ ?_ (by omega)) fun _ _ => Mirrors.pure _
  rw [Nat.zero_add]
  exact not_lt.mp htable

/-! ## The limits of the format -/

/-- The length of the payloads together. -/
def payloadSize (items : List (Nat × List UInt8)) : Nat := (items.map fun e => e.2.length).sum

/-- The length of the file `write` makes. -/
def fileSize (ad : AppleDouble) : Nat :=
  headerSize + 12 * ad.entries.items.length + payloadSize ad.entries.items

/-- 32-bit identifiers, at most 65535 entries, a file below 4 GiB. -/
structure WithinLimits (ad : AppleDouble) : Prop where
  ids : ∀ e ∈ ad.entries.items, e.1 < 2 ^ 32
  count : ad.entries.items.length ≤ 65535
  size : ad.fileSize < 2 ^ 32

theorem packEntries_ok {items : List (Nat × List UInt8)} {offset : Nat}
    (hids : ∀ e ∈ items, e.1 < 2 ^ 32) (hsize : offset + payloadSize items < 2 ^ 32) :
    ∃ records payload, packEntries items offset = .ok (records, payload) ∧
      payload.length = payloadSize items := by
  induction items generalizing offset with
  | nil => exact ⟨[], [], rfl, rfl⟩
  | cons item items ih =>
    obtain ⟨entryId, value⟩ := item
    obtain ⟨hid, hrest⟩ := List.forall_mem_cons.mp hids
    have hcons : payloadSize ((entryId, value) :: items) = value.length + payloadSize items := by
      rw [payloadSize, List.map_cons, List.sum_cons, payloadSize]
    rw [hcons] at hsize
    have hnext : offset + value.length + payloadSize items < 2 ^ 32 := by omega
    obtain ⟨records, payload, hpack, hlen⟩ := ih hrest hnext
    rw [packEntries, if_neg (by simp only at hid; omega), if_neg (by omega), hpack]
    exact ⟨_, _, rfl, by rw [List.length_append, hlen, hcons]⟩

/-- **Within the limits** there is a file for every container. -/
theorem pack_ok {ad : AppleDouble} (h : ad.WithinLimits) :
    ∃ data, ad.pack = .ok data ∧ data.length = ad.fileSize := by
  obtain ⟨records, payload, hpack, hlen⟩ := packEntries_ok h.ids h.size
  have hrecords := packEntries_length hpack
  rw [pack, if_neg (by have := h.count; omega), hpack]
  refine ⟨_, rfl, ?_⟩
  simp only [List.length_append, toBE_length, List.length_replicate, hrecords, hlen, fileSize,
    headerSize]

/-! ## Writing and reading -/

/-- Reading the file at `path` gives `ad`, unless the host refuses that. -/
def Reads (t : Tree) (path : Path) (ad : AppleDouble) : Prop :=
  ∀ env : HostEnv, wp (read env path) (fun ad' t' => ad' = ad ∧ t' = t)
    (fun _ t' => env.deny t (.read path) ≠ none ∧ t' = t) t

/-- The exception of `write` when the host did not make the directories of `path`, or did not store
`data` there. -/
def HostRefuses (env : HostEnv) (t : Tree) (path : Path) (data : List UInt8) (e : Exc) : Prop :=
  (∃ o t', mkdirs env path.tail t = .error o t' ∧ e = .osError o.text) ∨
  ∃ t₁ o t', mkdirs env path.tail t = .ok () t₁ ∧ writeBytes env path data t₁ = .error o t' ∧
    e = .hostError s!"cannot write AppleDouble file {String.ofList (pathText path)}: {o.text}"

/-- Writing to an open file, whether or not the host breaks off. -/
theorem writeOpen_content {env : HostEnv} {t : Tree} {p : Path} {data old : List UInt8}
    {attrs : Dict XattrName (List UInt8)} (hp : p ≠ [])
    (hlook : t.look p = some ⟨attrs, some old⟩) :
    wp (writeOpen env p data) (fun _ t' => Stored t t' p data) (fun _ _ => True) t := by
  cases hdeny : env.deny t (.write p data) with
  | none => exact wp_mono (writeOpen_stored hp hlook hdeny) (fun _ _ h => h) fun _ _ _ => trivial
  | some e =>
    simp only [writeOpen, wp_bind, wp_get, hdeny]
    exact wp_mono (storeContent_spec p _) (fun _ _ _ => trivial) fun _ _ _ => trivial

/-- **A write that ends normally** has stored the data. -/
theorem writeBytes_content {env : HostEnv} {t : Tree} {p : Path} {data : List UInt8} :
    wp (writeBytes env p data) (fun _ t' => Stored t t' p data) (fun _ _ => True) t := by
  simp only [writeBytes, wp_bind]
  refine wp_mono (openWrite_stored p) (fun _ t₁ h₁ => ?_) fun _ _ _ => trivial
  obtain ⟨attrs, hlook⟩ := h₁.2.content
  exact wp_mono (writeOpen_content h₁.1 hlook) (fun _ _ h => h₁.2.trans h) fun _ _ _ => trivial

theorem reads_of_content {t : Tree} {path : Path} {attrs : Dict XattrName (List UInt8)}
    {data : List UInt8} {ad : AppleDouble} (hlook : t.look path = some ⟨attrs, some data⟩)
    (hpack : ad.pack = .ok data) : Reads t path ad := by
  intro env
  simp only [read, wp_bind, wp_mapError, readBytes, refuse, wp_get]
  cases hdeny : env.deny t (.read path) with
  | some e => exact ⟨Option.some_ne_none e, rfl⟩
  | none =>
    simp only [wp_pure, hlook, parse_pack hpack]
    exact ⟨rfl, rfl⟩

/-- **What was written is read**, whatever the host does in between. -/
theorem write_reads {env : HostEnv} {t : Tree} {ad : AppleDouble} {path : Path}
    {data : List UInt8} (hpack : ad.pack = .ok data) :
    wp (write env ad path) (fun _ t' => Reads t' path ad)
      (fun e _ => HostRefuses env t path data e) t := by
  simp only [write, wp_bind, wp_mapError, hpack]
  refine wp_mono (wp_self (mkdirs env path.tail) t) (fun _ t₁ h₁ => ?_) fun o t' h =>
    Or.inl ⟨o, t', h, rfl⟩
  show wp (writeBytes env path data) _ _ t₁
  refine wp_mono (wp_and (wp_self (writeBytes env path data) t₁) writeBytes_content)
    (fun _ t' h => ?_) fun o t' h => Or.inr ⟨t₁, o, t', h₁, h.1, rfl⟩
  obtain ⟨attrs, hlook⟩ := h.2.content
  exact reads_of_content hlook hpack

/-- **What `read` answers on any file**: the slices its table names, or a `HostError`. -/
theorem read_tabled {env : HostEnv} {t : Tree} (path : Path) :
    wp (read env path)
      (fun ad t' => t' = t ∧ ∃ attrs data, t.look path = some ⟨attrs, some data⟩ ∧
        Tabled data ad.entries)
      (fun e t' => t' = t ∧ HostFailure e) t := by
  simp only [read, wp_bind, wp_mapError, readBytes, wp_get]
  refine refuse_spec _ ?_ fun _ => ⟨rfl, rfl⟩
  split
  · rename_i attrs data hlook
    refine wp_ofExcept (fun ad hparse => ⟨rfl, attrs, data, hlook, parse_tabled hparse⟩)
      fun e hparse => ⟨rfl, ?_⟩
    exact parsesIn_error (parseAt_parses data _) hparse
  · exact ⟨rfl, rfl⟩
  · exact ⟨rfl, rfl⟩

end AppleDouble

/-! ## Setting one entry of a sidecar -/

/-- The sidecar with one entry set is read after `_write_sidecar_entry`. -/
theorem writeSidecarEntry_reads {env : HostEnv} {t : Tree} {host : Path} {entryId : Nat}
    {bytes data : List UInt8} {ad : AppleDouble} (hhas : t.has (sidecar host) = true)
    (hread : AppleDouble.read env (sidecar host) t = .ok ad t)
    (hpack : AppleDouble.pack ⟨ad.entries.set entryId bytes⟩ = .ok data) :
    wp (writeSidecarEntry env host entryId bytes)
      (fun _ t' => AppleDouble.Reads t' (sidecar host) ⟨ad.entries.set entryId bytes⟩)
      (fun e _ => AppleDouble.HostRefuses env t (sidecar host) data e) t := by
  simp only [writeSidecarEntry, wp_bind, wp_get, hhas, if_true]
  rw [wp_iff_of_ok hread]
  exact AppleDouble.write_reads hpack

/-- **AppleDouble files.** Within the limits of the format a container that was written is read
back, entry by entry and in order; setting one entry of a sidecar that can be read changes that
entry and no other; and from any byte string `read` answers the slices its table names or raises
`HostError`, reading only inside. A write fails only when the host refuses it. -/
theorem appleDouble_files :
    (∀ ad : AppleDouble, ad.WithinLimits → ∃ data, ad.pack = .ok data ∧
      data.length = ad.fileSize ∧ ∀ env t path,
        wp (AppleDouble.write env ad path) (fun _ t' => AppleDouble.Reads t' path ad)
          (fun e _ => AppleDouble.HostRefuses env t path data e) t) ∧
    (∀ (env : HostEnv) (t : Tree) (host : Path) (ad : AppleDouble) (entryId : Nat)
      (bytes : List UInt8), t.has (sidecar host) = true →
      AppleDouble.read env (sidecar host) t = .ok ad t →
      AppleDouble.WithinLimits ⟨ad.entries.set entryId bytes⟩ →
      (∃ data, AppleDouble.pack ⟨ad.entries.set entryId bytes⟩ = .ok data ∧
        wp (writeSidecarEntry env host entryId bytes)
          (fun _ t' => AppleDouble.Reads t' (sidecar host) ⟨ad.entries.set entryId bytes⟩)
          (fun e _ => AppleDouble.HostRefuses env t (sidecar host) data e) t) ∧
      (ad.entries.set entryId bytes).keys =
        (if entryId ∈ ad.entries.keys then ad.entries.keys else ad.entries.keys ++ [entryId]) ∧
      ∀ q, (ad.entries.set entryId bytes).get? q =
        if q = entryId then some bytes else ad.entries.get? q) ∧
    (∀ data path,
      ParsesIn HostFailure (AppleDouble.parseAt data path) (AppleDouble.parse data path) ∧
      CleanIn HostFailure (AppleDouble.parseAt data path)
        fun ad => AppleDouble.Tabled data ad.entries) ∧
    ∀ (env : HostEnv) (t : Tree) (path : Path),
      wp (AppleDouble.read env path)
        (fun ad t' => t' = t ∧ ∃ attrs data, t.look path = some ⟨attrs, some data⟩ ∧
          AppleDouble.Tabled data ad.entries)
        (fun e t' => t' = t ∧ HostFailure e) t := by
  refine ⟨fun ad h => ?_, fun env t host ad entryId bytes hhas hread h => ⟨?_, ?_, ?_⟩,
    fun data path => ⟨?_, ?_⟩, fun env t path => AppleDouble.read_tabled path⟩
  · obtain ⟨data, hpack, hlen⟩ := AppleDouble.pack_ok h
    exact ⟨data, hpack, hlen, fun env t path => AppleDouble.write_reads hpack⟩
  · obtain ⟨data, hpack, -⟩ := AppleDouble.pack_ok h
    exact ⟨data, hpack, writeSidecarEntry_reads hhas hread hpack⟩
  · exact Dict.keys_set ad.entries entryId bytes
  · exact Dict.get?_set ad.entries entryId bytes
  · exact AppleDouble.parseAt_parses data path
  · exact cleanIn_of_parses (AppleDouble.parseAt_parses data path) fun _ h =>
      AppleDouble.parse_tabled h

/-- A sidecar with a resource fork. -/
def oneEntry : AppleDouble := ⟨Dict.empty.set 2 [7, 8]⟩

/-- It is written beside the file of the small tree, and a second entry is set. -/
theorem appleDouble_files_sidecar :
    ∃ t data, AppleDouble.Reads t (sidecar [['f'], ['s'], ['d'], ['p']]) oneEntry ∧
      AppleDouble.pack ⟨oneEntry.entries.set 9 [1]⟩ = .ok data ∧
      wp (writeSidecarEntry calm [['f'], ['s'], ['d'], ['p']] 9 [1])
        (fun _ t' => AppleDouble.Reads t' (sidecar [['f'], ['s'], ['d'], ['p']])
          ⟨oneEntry.entries.set 9 [1]⟩)
        (fun e _ => AppleDouble.HostRefuses calm t (sidecar [['f'], ['s'], ['d'], ['p']]) data e)
        t ∧
      (oneEntry.entries.set 9 [1]).keys = [2, 9] := by
  obtain ⟨hfiles, hset, -⟩ := appleDouble_files
  obtain ⟨_, -, -, hwrite⟩ := hfiles oneEntry ⟨by decide, by decide, by decide⟩
  obtain ⟨t, hok, hhas⟩ : ∃ t,
      AppleDouble.write calm oneEntry (sidecar [['f'], ['s'], ['d'], ['p']]) smallTree = .ok () t ∧
      t.has (sidecar [['f'], ['s'], ['d'], ['p']]) = true := ⟨_, rfl, rfl⟩
  have hreads := wp_of_ok (hwrite calm smallTree _) hok
  have hcalm := wp_mono (hreads calm) (fun _ _ h => h) fun _ _ h => h.1 rfl
  obtain ⟨_, _, hread, rfl, rfl⟩ := wp_exists_ok hcalm
  obtain ⟨⟨data, hpack, hentry⟩, hkeys, -⟩ :=
    hset calm _ _ oneEntry 9 [1] hhas hread ⟨by decide, by decide, by decide⟩
  exact ⟨_, data, hreads, hpack, hentry, hkeys⟩

end Cwhost.Vfs
