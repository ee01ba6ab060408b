import Cwhost.Abi.WriteField
import Cwhost.Carbon.CatalogInfo
import Cwhost.Session.CStrings
import Cwhost.Session.IncludeSearch
import Cwhost.Session.TextBuffers

/-!
# Loading an include file (`pluginlib.py`, `CWFindAndLoadFile`)

The callback looks for a file, puts its text into the scratch region and fills in the record of the
plug-in: where the text is, how long it is, the number of the file and its specification.

* `FileHost`: the session with the fields for finding files and the tree of the host.
* `cwFindAndLoadFile`: the callback, from its unpacked arguments on.
* `findAndLoadFile_loads`: **what it does** when it finds a file, and when it finds none.

Source: `pluginlib.py`, `CWFindAndLoadFile`, `_cstr`; `session.py`, `_text_pointer`, `_file_id`;
`vfs.py`, `Node.text_fork`.

Premises of the result: a readable C string and an accessible record off the scratch region; a tree
without symbolic links whose directories can be listed; a data fork that can be read and fits; a
file number below 2^15; a file that can be specified (`Specifiable`).
-/

namespace Cwhost

open Lib Vfs

/-! ## The code -/

/-- A session and the files of the host. -/
structure FileHost (M : ByteMemory) where
  host : HostSession M
  search : FileSearch
  /-- `_file_ids`. -/
  fileIds : Dict Nat Nat
  tree : Tree

/-- A callback that works on files. -/
abbrev FileHostM (M : ByteMemory) := EStateM Exc (FileHost M)

/-- `_TEXT_SUFFIXES`. -/
def textSuffixes : List Str :=
  [".c", ".cc", ".cp", ".cpp", ".cxx", ".c++", ".h", ".hh", ".hp", ".hpp", ".hxx", ".h++", ".pch",
    ".pch++", ".inc", ".inl", ".ipp", ".i", ".ii", ".m", ".mm"].map String.toList

/-- `Path.suffix`: from the last dot on, which is neither the first nor the last character. -/
def suffix (path : Path) : Str :=
  let name := path.headD []
  let extension := (name.reverse.takeWhile (· ≠ '.')).reverse
  if extension ≠ [] ∧ extension.length + 1 < name.length then '.' :: extension else []

/-- `Node.text_fork`. -/
def textFork (fold : Str → Str) (env : HostEnv) (n : Node) : WorldM (List UInt8) := do
  let data ← Carbon.dataFork env n
  if fold (suffix n.host) ∈ textSuffixes ∧ (0 : UInt8) ∉ data ∧ (0x0A : UInt8) ∈ data ∧
      (0x0D : UInt8) ∉ data then
    return data.map fun b => if b = 0x0A then 0x0D else b
  return data

namespace FileHost

variable {M : ByteMemory} {α : Type}

/-- Work of the session without its files. -/
def onHost (x : EStateM Exc (HostSession M) α) : FileHostM M α :=
  zoom FileHost.host (fun s l => { s with host := l }) x

/-- Work of the guest. -/
def onGuest (x : EStateM Exc (Guest M) α) : FileHostM M α := onHost (HostSession.onGuest x)

/-- Work of the search for files. -/
def onSearch (x : FindM α) : FileHostM M α :=
  zoom FileHost.search (fun s f => { s with search := f }) x

/-- The files, as the VFS sees them. -/
def world (s : FileHost M) : Vfs.World := ⟨s.tree, s.search.registry⟩

/-- Work on the files. -/
def onWorld (x : WorldM α) : FileHostM M α :=
  zoom world
    (fun s w => { s with tree := w.tree, search := { s.search with registry := w.registry } }) x

/-- `_file_id`. -/
def fileId (n : Node) : FileHostM M Nat := do
  let s ← get
  match s.fileIds.get? n.id with
  | some number => return number
  | none => do
    let number := s.fileIds.items.length
    set { s with fileIds := s.fileIds.set n.id number }
    return number

section Callback

variable (py : Numerals) (fold : Str → Str) (env : HostEnv)

/-- `abi.CWFileInfo.write_field(guest, info_ptr, field, value)`. -/
def writeInfo (infoPtr : Nat) (field : String) (value : Value) : FileHostM M Unit :=
  onGuest (cwFileInfo.writeField py infoPtr field.toList value)

/-- `CWFindAndLoadFile`, from the file found on. -/
def loadFound (n : Node) (infoPtr : Nat) : FileHostM M Nat := do
  let data ← onWorld (textFork fold env n)
  let ptr ← onHost (HostSession.textPointer data)
  writeInfo py infoPtr "filedata" (.int ptr)
  writeInfo py infoPtr "filedatalength" (.int data.length)
  writeInfo py infoPtr "filedatatype" (.int 1)
  let number ← fileId n
  writeInfo py infoPtr "fileID" (.int number)
  let items ← onSearch (FileSearch.onRegistry (fileSpecValues n))
  writeInfo py infoPtr "filespec" (.dict items)
  return 0

/-- `CWFindAndLoadFile`. -/
def cwFindAndLoadFile (context filenamePtr infoPtr : Nat) : FileHostM M Nat := do
  onHost (HostSession.checkContext context)
  let filename ← onHost (HostSession.cstr filenamePtr)
  let info ← onGuest (cwFileInfo.unpack infoPtr)
  let view := (← get).tree.view env
  let found ← onSearch (FileSearch.findFile fold view (decodeMacRoman filename)
    (intField info "fullsearch" ≠ 0) (intField info "isdependentoffile"))
  match found with
  | none => return FileSearch.cwErrFileNotFound
  | some n => loadFound py fold env n infoPtr

/-- The text of the main file, nothing without one. -/
def mainText : FileHostM M (List UInt8) := do
  match (← get).search.files with
  | [] => return []
  | n :: _ => onWorld (textFork fold env n)

/-- `CWGetMainFileText`. -/
def cwGetMainFileText (context textOut lengthOut : Nat) : FileHostM M Unit := do
  onHost (HostSession.checkContext context)
  let data ← mainText fold env
  let ptr ← onHost (HostSession.textPointer data)
  onGuest (Guest.w32 textOut ptr)
  onGuest (Guest.w32 lengthOut data.length)

end Callback

/-! ## Its parts -/

/-- The number of a file, which may be the next one. -/
def numberOf (ids : Dict Nat Nat) (n : Node) : Nat := (ids.get? n.id).getD ids.items.length

/-- The numbers after a file was asked for. -/
def withNumber (ids : Dict Nat Nat) (n : Node) : Dict Nat Nat :=
  if (ids.get? n.id).isSome then ids else ids.set n.id ids.items.length

theorem fileId_eq (n : Node) (s : FileHost M) :
    fileId n s = .ok (numberOf s.fileIds n) { s with fileIds := withNumber s.fileIds n } := by
  rw [fileId, bind_of_ok (get_eq _), numberOf, withNumber]
  cases s.fileIds.get? n.id <;> rfl

/-- Reading a text leaves the files as they are. -/
theorem textFork_keeps {fold : Str → Str} {env : HostEnv} {n : Node} {w w' : Vfs.World}
    {text : List UInt8} (h : textFork fold env n w = .ok text w') : w' = w := by
  have hspec : wp (textFork fold env n) (fun _ w' => w' = w) (fun _ _ => True) w := by
    rw [textFork, wp_bind]
    refine wp_mono (Carbon.dataFork_spec rfl) (fun data w' hdata => ?_) fun _ _ _ => trivial
    rw [wp_ite]
    exact ⟨fun _ => hdata.1, fun _ => hdata.1⟩
  exact (wp_iff_of_ok h).mp hspec

end FileHost

namespace HostSession

variable {M : ByteMemory} {l : HostSession M} {ctx : Nat}

/-- The session after a text was put at the pointer. -/
def withText (l : HostSession M) (g : Guest M) (data : List UInt8) : HostSession M :=
  { l.withGuest g with
    scratch := textStop l.scratch data
    textBuffers := l.textBuffers.set (Guest.alignUp l.scratch 4) data }

/-- **The text in memory**: it is at the next multiple of four with a zero behind it, and nothing
else in memory changes. -/
theorem textPointer_eq (h : Ready ctx l) {data : List UInt8}
    (hfits : textStop l.scratch data ≤ scratchEnd) :
    ∃ g, textPointer data l = .ok (Guest.alignUp l.scratch 4) (l.withText g data) ∧
      Guest.Written l.guest g (Guest.alignUp l.scratch 4) (data ++ [0]) := by
  have hle := Guest.le_alignUp l.scratch (show 0 < 4 by decide)
  have hbase := h.base.trans hle
  have hend : Guest.alignUp l.scratch 4 + (data.length + 1) ≤ scratchEnd := hfits
  have hregion : l.guest.Accessible Guest.scratchBase Guest.scratchSize :=
    ⟨h.mapped, scratchEnd_lt.le⟩
  obtain ⟨ptr, l₁, halloc, -, rfl, rfl⟩ := wp_exists_ok (wp_mono (alloc_spec data.length l)
    (fun _ _ h => h) fun _ _ he => absurd hend (Nat.not_le.mpr he.1))
  -- The text, and the zero behind it.
  have hzero : ∀ g₁ : Guest M, Guest.Written l.guest g₁ (Guest.alignUp l.scratch 4) data →
      ∃ g, Guest.w8 (Guest.alignUp l.scratch 4 + data.length) 0 g₁ = .ok () g ∧
        Guest.Written l.guest g (Guest.alignUp l.scratch 4) (data ++ [0]) := by
    intro g₁ hw
    have hregion₁ : g₁.Accessible Guest.scratchBase Guest.scratchSize :=
      ⟨hw.mappedRange hregion.mapped, hregion.below⟩
    have hbyte : Guest.alignUp l.scratch 4 + data.length + ([0] : List UInt8).length ≤
        scratchEnd := by
      rw [Nat.add_assoc]
      exact hend
    obtain ⟨_, g, hrun, hw'⟩ := wp_exists_ok
      (Guest.write_within hregion₁ (Nat.le_add_right_of_le hbase) hbyte)
    exact ⟨g, hrun, hw.append hw'⟩
  rw [textPointer, bind_of_ok halloc]
  by_cases hdata : data = []
  · subst hdata
    obtain ⟨g, hrun, hw⟩ := hzero l.guest (.refl _ _)
    refine ⟨g, ?_, hw⟩
    rw [if_neg (not_not.mpr rfl)]
    exact bind_of_ok (onGuest_of_ok (l := { l with scratch := textStop l.scratch [] }) hrun)
  · obtain ⟨_, g₁, hrun₁, hw₁⟩ := wp_exists_ok (Guest.write_within hregion hbase
      (show Guest.alignUp l.scratch 4 + data.length ≤ scratchEnd by omega))
    obtain ⟨g, hrun, hw⟩ := hzero g₁ hw₁
    refine ⟨g, ?_, hw⟩
    rw [if_pos hdata]
    have hstored := onGuest_of_ok (l := { l with scratch := textStop l.scratch data }) hrun₁
    exact (bind_of_ok hstored).trans (bind_of_ok (onGuest_of_ok hrun))

end HostSession

namespace FileHost

section Loading

variable {M : ByteMemory} {py : Numerals} {fold : Str → Str} {env : HostEnv} {s : FileHost M}
  {n : Node} {infoPtr ctx : Nat} {text : List UInt8} {former : List (Str × Value)}

/-- What loading the text of `n` has done to the session, its memory and the record. -/
structure Loaded (py : Numerals) (fold : Str → Str) (env : HostEnv) (infoPtr : Nat)
    (former : List (Str × Value)) (n : Node) (text : List UInt8) (s s' : FileHost M) : Prop where
  host : s'.host = s.host.withText s'.host.guest text
  numbered : s'.fileIds = withNumber s.fileIds n
  tree : s'.tree = s.tree
  reads : Reads fold (s.tree.view env) s.search.registry s'.search.registry
  /-- The text is in the scratch region, with a zero behind it. -/
  held : ByteMemory.bytes s'.host.guest.uc (Guest.alignUp s.host.scratch 4) (text.length + 1) =
    text ++ [0]
  /-- Five fields of the record are new. -/
  record : ∃ items, cwFileInfo.unpack infoPtr s'.host.guest =
    .ok (withFields [("filespec".toList, .dict items),
      ("fileID".toList, .int (numberOf s.fileIds n)), ("filedatatype".toList, .int 1),
      ("filedatalength".toList, .int text.length),
      ("filedata".toList, .int (Guest.alignUp s.host.scratch 4))] former) s'.host.guest
  /-- Its specification is the one of the file, -/
  specified : ∃ p, Specified fold (s.tree.view env) s.search.registry s'.search.registry n p ∧
    cwFileSpec.unpack (infoPtr + 20) s'.host.guest =
      .ok (specItems s'.search.registry n p) s'.host.guest
  /-- so reading it gives the file. -/
  spec : wp (readSpec py fold (s.tree.view env) (infoPtr + 20)) (fun m _ => m = n)
    (fun _ _ => False) (⟨s'.host.guest, s'.search.registry⟩ : GuestFiles M)
  mapped : ∀ x, M.mapped s'.host.guest.uc x ↔ M.mapped s.host.guest.uc x
  /-- Nothing else in memory has changed. -/
  frame : ∀ x, ¬ Has (infoPtr, cwFileInfo.size) x →
    ¬ Has (Guest.alignUp s.host.scratch 4, text.length + 1) x →
      s'.host.guest.byte x = s.host.guest.byte x

theorem writeInfo_of_ok {field : String} {value : Value} {g : Guest M}
    (h : cwFileInfo.writeField py infoPtr field.toList value s.host.guest = .ok () g) :
    writeInfo py infoPtr field value s = .ok () { s with host := s.host.withGuest g } := by
  rw [writeInfo, onGuest, onHost, zoom_of_ok (HostSession.onGuest_of_ok h)]

theorem ptr_canonical {v : Nat} (h : v < 2 ^ 32) : Scalar.ptr.Canonical (.int v) :=
  ⟨v, rfl, Int.natCast_nonneg v, by exact_mod_cast h⟩

/-- A number that is not negative in a signed field. -/
theorem signed_canonical {kind : Scalar} (hkind : kind.signed = true) {v : Nat}
    (h : v < 2 ^ (8 * kind.size - 1)) : kind.Canonical (.int v) := by
  have hne : kind ≠ .ostype ∧ kind ≠ .boolean := by
    constructor <;> rintro rfl <;> exact absurd hkind (by decide)
  rw [Scalar.Canonical, if_neg hne.1, if_neg hne.2, if_pos hkind]
  have hpos : (0 : Int) < 2 ^ (8 * kind.size - 1) := by exact_mod_cast Nat.two_pow_pos _
  exact ⟨v, rfl, by omega, by exact_mod_cast h⟩

/-- The record while it is filled in: the state is `s`, but for the memory. -/
structure Filling (infoPtr : Nat) (former : List (Str × Value)) (s : FileHost M)
    (news : List (Str × Value)) (s' : FileHost M) : Prop where
  rest : s' = { s with host := s.host.withGuest s'.host.guest }
  place : s.host.guest.Accessible infoPtr cwFileInfo.size
  updated : cwFileInfo.Updated infoPtr former s.host.guest news s'.host.guest

variable {s' : FileHost M} {news : List (Str × Value)}

/-- The next field, a number. -/
theorem Filling.number (hpy : py.OnAscii) {field : String} {offset : Nat} {kind : Scalar}
    (hentry : scalarEntry field offset kind ∈ cwFileInfo.layout) {v : Int}
    (hv : kind.Canonical (.int v)) (h : Filling infoPtr former s news s') :
    ∃ s'', writeInfo py infoPtr field (.int v) s' = .ok () s'' ∧
      Filling infoPtr former s ((field.toList, .int v) :: news) s'' := by
  obtain ⟨g, hwrite, hu⟩ := h.updated.writeField (cwFileInfo_built hpy) h.place hentry hv
  refine ⟨_, writeInfo_of_ok hwrite, ?_, h.place, hu⟩
  rw [h.rest]
  rfl

/-- The last field, a file specification, which is then in memory. -/
theorem Filling.spec (hpy : py.OnAscii) {items : List (Str × Value)}
    (hitems : cwFileSpec.Canonical items) (h : Filling infoPtr former s news s') :
    ∃ s'', writeInfo py infoPtr "filespec" (.dict items) s' = .ok () s'' ∧
      Filling infoPtr former s
        (("filespec".toList, .dict (cwFileSpec.completed items)) :: news) s'' ∧
      cwFileSpec.unpack (infoPtr + 20) s''.host.guest =
        .ok (cwFileSpec.completed items) s''.host.guest := by
  have hbuilt := cwFileInfo_built hpy
  have hentry : (⟨"filespec".toList, 20, ⟨592, 2, .struct⟩, .struct cwFileSpec⟩ :
      LayoutEntry Struct) ∈ cwFileInfo.layout :=
    List.mem_of_getElem? (show cwFileInfo.layout[9]? = some _ from rfl)
  have hplace : ByteMemory.MappedRange s'.host.guest.uc ((infoPtr + 20) % 2 ^ 32)
      cwFileSpec.size := by
    have hsub : s.host.guest.Accessible (infoPtr + 20) cwFileSpec.size :=
      h.place.sub (Nat.le_add_right infoPtr 20)
        (show infoPtr + 20 + 592 ≤ infoPtr + 614 by omega)
    exact fun x h1 h2 => (h.updated.mapped x).mpr (hsub.mapped_mod x h1 h2)
  obtain ⟨g, hwrite, hu⟩ := h.updated.writeField hbuilt h.place hentry
    (show canonicalField _ _ (.dict items) from ⟨items, rfl, hitems⟩)
  obtain ⟨g', hwrite', hnested⟩ := hbuilt.writeField_nested hentry rfl hitems hplace
  cases hwrite.symm.trans hwrite'
  refine ⟨_, writeInfo_of_ok hwrite, ⟨?_, h.place, hu⟩, hnested⟩
  rw [h.rest]
  rfl

/-- The file is given its number. -/
theorem Filling.numbered (n : Node) (h : Filling infoPtr former s news s') :
    fileId n s' = .ok (numberOf s.fileIds n)
        { s' with fileIds := withNumber s.fileIds n } ∧
      Filling infoPtr former { s with fileIds := withNumber s.fileIds n } news
        { s' with fileIds := withNumber s.fileIds n } := by
  have hids : s'.fileIds = s.fileIds := by
    rw [h.rest]
  refine ⟨?_, ?_, h.place, h.updated⟩
  · rw [fileId_eq, hids]
  · conv_lhs => rw [h.rest]

/-- The same, when the specification was read in between. -/
theorem Filling.specified (hpy : py.OnAscii) {items : List (Str × Value)}
    (hitems : cwFileSpec.Canonical items) (r : Registry)
    (h : Filling infoPtr former s news s') :
    ∃ s'', writeInfo py infoPtr "filespec" (.dict items)
        { s' with search := { s'.search with registry := r } } = .ok () s'' ∧
      s'' = { s with
        host := s.host.withGuest s''.host.guest
        search := { s.search with registry := r } } ∧
      cwFileInfo.Updated infoPtr former s.host.guest
        (("filespec".toList, .dict (cwFileSpec.completed items)) :: news) s''.host.guest ∧
      cwFileSpec.unpack (infoPtr + 20) s''.host.guest =
        .ok (cwFileSpec.completed items) s''.host.guest := by
  have h' : Filling infoPtr former { s with search := { s.search with registry := r } } news
      { s' with search := { s'.search with registry := r } } :=
    ⟨by conv_lhs => rw [h.rest], h.place, h.updated⟩
  obtain ⟨s'', hrun, hfill, hread⟩ := h'.spec hpy hitems
  exact ⟨s'', hrun, hfill.rest, hfill.updated, hread⟩

/-- **Loading a file** that was found. -/
theorem loadFound_loads (hpy : py.OnAscii) (hfold : CaseFolding fold)
    (hlist : (s.tree.view env).Listable) (hready : HostSession.Ready ctx s.host)
    (hacc : s.host.guest.Accessible infoPtr cwFileInfo.size)
    (hapart : infoPtr + cwFileInfo.size ≤ s.host.scratch ∨ HostSession.scratchEnd ≤ infoPtr)
    (hformer : cwFileInfo.unpack infoPtr s.host.guest = .ok former s.host.guest)
    (htext : textFork fold env n s.world = .ok text s.world)
    (hfits : HostSession.textStop s.host.scratch text ≤ HostSession.scratchEnd)
    (hnumber : numberOf s.fileIds n < 2 ^ 15)
    (hn : Specifiable fold env s.tree s.search.registry n) :
    wp (loadFound py fold env n infoPtr)
      (fun code s' => code = 0 ∧ Loaded py fold env infoPtr former n text s s')
      (fun _ _ => False) s := by
  have hbuilt := cwFileInfo_built hpy
  have hptr := hready.base.trans (Guest.le_alignUp s.host.scratch (show 0 < 4 by decide))
  have hscratch := Guest.le_alignUp s.host.scratch (show 0 < 4 by decide)
  have hend : Guest.alignUp s.host.scratch 4 + (text.length + 1) ≤ HostSession.scratchEnd := hfits
  have hregion : HostSession.scratchEnd = 0x2B000000 := rfl
  obtain ⟨g₁, htextPointer, hw⟩ := HostSession.textPointer_eq hready hfits
  have hlen : (text ++ [0]).length = text.length + 1 := List.length_append
  have hout : ∀ x, Has (infoPtr, cwFileInfo.size) x →
      ¬ Has (Guest.alignUp s.host.scratch 4, (text ++ [0]).length) x := by
    intro x hx hx'
    rw [hlen] at hx'
    unfold Has at hx hx'
    omega
  have hacc₁ : g₁.Accessible infoPtr cwFileInfo.size := ⟨hw.mappedRange hacc.mapped, hacc.below⟩
  have hformer₁ := hbuilt.unpack_congr hacc hacc₁
    (ByteMemory.bytes_congr fun x h1 h2 => hw.frame x (hout x ⟨h1, h2⟩)) hformer
  have hread : onWorld (textFork fold env n) s = .ok text s := by
    rw [onWorld, zoom_of_ok htext]
    rfl
  have hput : onHost (HostSession.textPointer text) s =
      .ok (Guest.alignUp s.host.scratch 4) { s with host := s.host.withText g₁ text } := by
    rw [onHost, zoom_of_ok htextPointer]
  -- The fields, in the order of the source.
  have h₁ : Filling infoPtr former { s with host := s.host.withText g₁ text } []
      { s with host := s.host.withText g₁ text } := ⟨rfl, hacc₁, .start hformer₁⟩
  obtain ⟨s₂, hdata, h₂⟩ := h₁.number hpy (List.mem_of_getElem?
    (show cwFileInfo.layout[5]? = some (scalarEntry "filedata" 8 .ptr) from rfl))
    (ptr_canonical (show Guest.alignUp s.host.scratch 4 < 2 ^ 32 by omega))
  obtain ⟨s₃, hlength, h₃⟩ := h₂.number hpy (List.mem_of_getElem?
    (show cwFileInfo.layout[6]? = some (scalarEntry "filedatalength" 12 .s32) from rfl))
    (signed_canonical rfl (show text.length < 2 ^ 31 by omega))
  obtain ⟨s₄, htype, h₄⟩ := h₃.number hpy (List.mem_of_getElem?
    (show cwFileInfo.layout[7]? = some (scalarEntry "filedatatype" 16 .s16) from rfl))
    (show Scalar.s16.Canonical (.int 1) from signed_canonical rfl (show 1 < 2 ^ 15 by decide))
  obtain ⟨hnumbered, h₅⟩ := h₄.numbered n
  obtain ⟨s₆, hid, h₆⟩ := h₅.number hpy (List.mem_of_getElem?
    (show cwFileInfo.layout[8]? = some (scalarEntry "fileID" 18 .s16) from rfl))
    (signed_canonical rfl hnumber)
  have hregistry : s₆.search.registry = s.search.registry := by
    rw [h₆.rest]
  rw [loadFound, wp_bind, wp_iff_of_ok hread, wp_bind, wp_iff_of_ok hput, wp_bind,
    wp_iff_of_ok hdata, wp_bind, wp_iff_of_ok hlength, wp_bind, wp_iff_of_ok htype, wp_bind,
    wp_iff_of_ok hnumbered, wp_bind, wp_iff_of_ok hid, wp_bind, onSearch, wp_zoom,
    FileSearch.onRegistry, wp_zoom, hregistry]
  refine wp_mono hn.fileSpecValues ?_ fun _ _ h => h
  intro items r hitems
  obtain ⟨p, hspec, hitems⟩ := hitems
  have hcanonical : cwFileSpec.Canonical items := hitems ▸ hn.canonical hspec
  obtain ⟨s₈, hrun, hrest, hu, hnested⟩ := h₆.specified hpy hcanonical r
  rw [wp_bind, wp_iff_of_ok hrun]
  have hcompleted : cwFileSpec.completed items = items := by
    rw [hitems]
    rfl
  rw [hcompleted] at hu hnested
  have hsearch : s₈.search.registry = r := by
    rw [hrest]
  rw [hitems] at hnested
  refine ⟨rfl, ?_, ?_, ?_, ?_, ?_, ⟨items, hu.unpacks⟩, ⟨p, ?_⟩, ?_,
    fun x => (hu.mapped x).trans (hw.mapped x), fun x hx hx' => ?_⟩
  · conv_lhs => rw [hrest]
    rfl
  · rw [hrest]
  · rw [hrest]
  · rw [hsearch]
    exact hspec.reads
  · rw [← hw.data_eq, hlen]
    exact ByteMemory.bytes_congr fun x h1 h2 => hu.frame x fun hx => hout x hx ⟨h1, by omega⟩
  · rw [hsearch]
    exact ⟨hspec, hnested⟩
  · rw [hsearch]
    exact hn.readSpec hfold hlist hspec hnested
  · exact (hu.frame x hx).trans (hw.frame x (by rwa [hlen]))

/-- **`CWFindAndLoadFile`.** A plug-in that hands over its context, the C string of a name and a
record outside the scratch region is answered with the file that `_find_file` finds for them, with
its text in the scratch region and its specification in the record; and with `cwErrFileNotFound`,
the record as it was, when there is none. -/
theorem findAndLoadFile_loads {name : List UInt8} {filenamePtr : Nat} {found : Option Node}
    {search : FileSearch} (hpy : py.OnAscii) (hfold : CaseFolding fold)
    (hlist : (s.tree.view env).Listable) (hready : HostSession.Ready ctx s.host)
    (hptr : filenamePtr ≠ 0) (hname : CString s.host.guest filenamePtr name)
    (hlen : name.length < 1 <<< 20) (hacc : s.host.guest.Accessible infoPtr cwFileInfo.size)
    (hapart : infoPtr + cwFileInfo.size ≤ s.host.scratch ∨ HostSession.scratchEnd ≤ infoPtr)
    (hformer : cwFileInfo.unpack infoPtr s.host.guest = .ok former s.host.guest)
    (hfind : FileSearch.findFile fold (s.tree.view env) (decodeMacRoman name)
      (intField former "fullsearch" ≠ 0) (intField former "isdependentoffile") s.search =
        .ok found search)
    (hload : ∀ n, found = some n →
      textFork fold env n ⟨s.tree, search.registry⟩ = .ok text ⟨s.tree, search.registry⟩ ∧
      HostSession.textStop s.host.scratch text ≤ HostSession.scratchEnd ∧
      numberOf s.fileIds n < 2 ^ 15 ∧ Specifiable fold env s.tree search.registry n) :
    wp (cwFindAndLoadFile py fold env ctx filenamePtr infoPtr)
      (fun code s' => match found with
        | none => code = FileSearch.cwErrFileNotFound ∧ s' = { s with search := search }
        | some n => code = 0 ∧
          Loaded py fold env infoPtr former n text { s with search := search } s')
      (fun _ _ => False) s := by
  have hcheck : onHost (HostSession.checkContext ctx) s = .ok () s := by
    rw [onHost, zoom_of_ok (HostSession.checkContext_eq hready.context)]
  have hcstr : onHost (HostSession.cstr filenamePtr) s = .ok name s := by
    rw [onHost, zoom_of_ok (HostSession.cstr_eq hptr hname hlen)]
  have hinfo : onGuest (cwFileInfo.unpack infoPtr) s = .ok former s := by
    rw [onGuest, onHost, zoom_of_ok (HostSession.onGuest_of_ok hformer)]
    rfl
  have hsearch : onSearch (FileSearch.findFile fold (s.tree.view env) (decodeMacRoman name)
      (intField former "fullsearch" ≠ 0) (intField former "isdependentoffile")) s =
        .ok found { s with search := search } := by
    rw [onSearch, zoom_of_ok hfind]
  rw [cwFindAndLoadFile, wp_bind, wp_iff_of_ok hcheck, wp_bind, wp_iff_of_ok hcstr, wp_bind,
    wp_iff_of_ok hinfo, wp_bind, wp_get, wp_bind, wp_iff_of_ok hsearch]
  cases found with
  | none => exact ⟨rfl, rfl⟩
  | some n =>
    obtain ⟨htext, hfits, hnumber, hn⟩ := hload n rfl
    exact loadFound_loads hpy hfold hlist hready hacc hapart hformer htext hfits hnumber hn

end Loading

/-! ## A file of a small session -/

/-- Memory with the string `s/f` at `0x1000`. -/
def namedGuest : Guest ByteMemory.flat :=
  ⟨(⟨fun _ => true, fun x => if x = 0x1000 then 0x73 else if x = 0x1001 then 0x2F else
    if x = 0x1002 then 0x66 else 0⟩ : ByteMemory.Flat)⟩

/-- A session over it whose search root is the directory `/p/d`. -/
def namedHost : FileHost ByteMemory.flat where
  host := .opened ⟨namedGuest, Guest.heapBase, 256 <<< 20, [], .empty⟩ []
  search := .treeSearch
  fileIds := .empty
  tree := smallTree

/-- The search after the file was found. -/
def foundSearch : FileSearch :=
  endState (FileSearch.findFile id (smallTree.view calm) ['s', '/', 'f'] false 0 .treeSearch)

theorem foundSearch_found : FileSearch.findFile id (smallTree.view calm) ['s', '/', 'f'] false 0
    .treeSearch = .ok (some { fileNode with id := 4 }) foundSearch :=
  eq_ok_of_okValue (by decide +kernel)

theorem foundSearch_specifiable :
    Specifiable id calm smallTree foundSearch.registry { fileNode with id := 4 } := by
  have hknown : ∀ e ∈ foundSearch.registry.vfs.nodes.items,
      foundSearch.registry.nodeById.get? e.2.id = some e.2 := by decide +kernel
  have hparent : (okValue (specParent { fileNode with id := 4 } foundSearch.registry)).map
      Node.id = some 3 := by decide +kernel
  have hhas : foundSearch.registry.vfs.nodes.get? (.build, fileNode.host) =
      some { fileNode with id := 4 } := by decide +kernel
  have hnames : ∀ name ∈ fileNode.host,
      name ≠ [] ∧ name ≠ ['.'] ∧ name ≠ ['.', '.'] ∧ '/' ∉ name := by decide
  refine ⟨(FileSearch.findFile_steady FileSearch.treeSearch_reached.steady _ _ _).registry,
    fun hn => hknown _ (Dict.get?_eq_some_iff.mp hn), hhas,
    fun name hname => ⟨(hnames name hname).1, (hnames name hname).2.1,
      (hnames name hname).2.2.1, (hnames name hname).2.2.2⟩, fun p s' h => ?_, by decide +kernel,
    fun _ _ _ _ h => h⟩
  rw [h] at hparent
  have hid : p.id = 3 := Option.some.inj hparent
  omega

theorem namedHost_ready : HostSession.Ready Guest.scratchBase namedHost.host where
  context := rfl
  mapped _ _ _ := rfl
  base := Nat.le_add_right _ _
  inside := by
    rw [namedHost, HostSession.opened_scratch]
    decide
  below _ _ h := by cases h

/-- The empty file `/p/d/s/f` is loaded. -/
theorem findAndLoadFile_loads_file : ∃ former,
    cwFileInfo.unpack 0x2000 namedHost.host.guest = .ok former namedHost.host.guest ∧
    wp (cwFindAndLoadFile asciiNumerals id calm Guest.scratchBase 0x1000 0x2000)
      (fun code s' => code = 0 ∧ Loaded asciiNumerals id calm 0x2000 former
        { fileNode with id := 4 } [] { namedHost with search := foundSearch } s')
      (fun _ _ => False) namedHost := by
  have hacc : namedHost.host.guest.Accessible 0x2000 cwFileInfo.size :=
    ⟨fun _ _ _ => rfl, by decide⟩
  obtain ⟨former, hbytes⟩ := (cwFileInfo_built asciiNumerals_onAscii).unpacks
    (ByteMemory.bytes_length namedHost.host.guest.uc 0x2000 cwFileInfo.size)
  have hformer := Struct.unpack_eq hacc hbytes
  have hfields : (okValue (cwFileInfo.unpack 0x2000 namedHost.host.guest)).map
      (fun info => (intField info "fullsearch", intField info "isdependentoffile")) =
        some (0, 0) := by decide +kernel
  rw [hformer] at hfields
  obtain ⟨hfull, hdependent⟩ := Prod.mk.inj (Option.some.inj hfields)
  have hname : CString namedHost.host.guest 0x1000 [0x73, 0x2F, 0x66] :=
    ⟨⟨rfl, rfl⟩, by decide, ⟨rfl, rfl⟩, by decide, ⟨rfl, rfl⟩, by decide, rfl, rfl⟩
  have hfind : FileSearch.findFile id (namedHost.tree.view calm)
      (decodeMacRoman [0x73, 0x2F, 0x66]) (intField former "fullsearch" ≠ 0)
      (intField former "isdependentoffile") namedHost.search =
        .ok (some { fileNode with id := 4 }) foundSearch := by
    rw [hfull, hdependent]
    exact foundSearch_found
  have hempty := eq_ok_of_okValue (show okValue (textFork id calm { fileNode with id := 4 }
    ⟨namedHost.tree, foundSearch.registry⟩) = some [] by decide +kernel)
  have hload : textFork id calm { fileNode with id := 4 }
        ⟨namedHost.tree, foundSearch.registry⟩ = .ok [] ⟨namedHost.tree, foundSearch.registry⟩ ∧
      HostSession.textStop namedHost.host.scratch [] ≤ HostSession.scratchEnd ∧
      numberOf namedHost.fileIds { fileNode with id := 4 } < 2 ^ 15 ∧
      Specifiable id calm namedHost.tree foundSearch.registry { fileNode with id := 4 } :=
    ⟨hempty.trans (congrArg _ (textFork_keeps hempty)), by decide, by decide,
      foundSearch_specifiable⟩
  have hapart : 0x2000 + cwFileInfo.size ≤ namedHost.host.scratch := by decide
  have hready := namedHost_ready
  have hlist : (namedHost.tree.view calm).Listable := by
    rw [namedHost]
    exact smallTree_listable
  -- The session is a name from here on, which nothing evaluates.
  generalize namedHost = s at *
  have hloads := findAndLoadFile_loads asciiNumerals_onAscii id_caseFolding hlist hready
    (by decide) hname (by decide) hacc (.inl hapart) hformer hfind fun n hn => by
      obtain rfl := Option.some.inj hn
      exact hload
  exact ⟨former, hformer, hloads⟩

end FileHost

end Cwhost
