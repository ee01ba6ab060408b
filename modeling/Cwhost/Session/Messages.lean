import Cwhost.Session.LoadFile

/-!
# Messages of the compiler (`pluginlib.py`, `CWReportMessage`)

The plug-in reports an error with the specification of a file, as it was handed out when the file
was loaded, and two lines of text. The session keeps the messages in order.

* `cwReportMessage`: the callback.
* `reportMessage_appends`: it appends one message, and changes nothing else but what the VFS has
  read.
* `reportMessage_loaded`: **a message about a file that was loaded names that file**, whatever was
  looked up in between.

Premises: the file can be specified (`Specifiable`): no sibling of the same name under case folding,
one VFS in the process, at most 255 UTF-16 units; the directories can be listed; the texts are
readable C strings.
-/

namespace Cwhost

open Lib Vfs

/-! ## The code -/

/-- `Message`. -/
structure Message where
  level : Int
  text : Str
  file : Option Node
  line : Int
  number : Int
  sourceLine : Str
  deriving DecidableEq

/-- A session with its messages. -/
structure Reporting (M : ByteMemory) where
  files : FileHost M
  messages : List Message

namespace Reporting

variable {M : ByteMemory} {α : Type}

/-- Work that reports nothing. -/
def onFiles (x : FileHostM M α) : EStateM Exc (Reporting M) α :=
  zoom Reporting.files (fun s f => { s with files := f }) x

end Reporting

namespace FileHost

variable {M : ByteMemory} (py : Numerals) (fold : Str → Str) (env : HostEnv)

/-- The guest and the files, as `_read_spec` sees them. -/
def guestFiles (s : FileHost M) : GuestFiles M := ⟨s.host.guest, s.search.registry⟩

/-- `_read_spec`, in a session. -/
def readSpec (address : Nat) : FileHostM M Node := do
  let view := (← get).tree.view env
  zoom guestFiles
    (fun s f => { s with
      host := s.host.withGuest f.guest
      search := { s.search with registry := f.registry } })
    (Cwhost.readSpec py fold view address)

/-- The file of a message; a specification that cannot be read names none. -/
def reportedFile (address : Nat) : FileHostM M (Option Node) := do
  try some <$> readSpec py fold env address
  catch e => if e.isHostError then pure none else throw e

/-- A line of a message, nothing without a pointer. -/
def reportedText (ptr : Nat) : FileHostM M Str := do
  if ptr ≠ 0 then return decodeMacRoman (← onHost (HostSession.cstr ptr)) else return []

/-- The file and the line of a message. -/
def reportedPlace (msgPtr : Nat) : FileHostM M (Option Node × Int) := do
  if msgPtr ≠ 0 then
    let ref ← onGuest (cwMessageRef.unpack msgPtr)
    let file ← reportedFile py fold env msgPtr
    return (file, intField ref "linenumber")
  else return (none, 0)

end FileHost

/-- `CWReportMessage`. -/
def cwReportMessage {M : ByteMemory} (py : Numerals) (fold : Str → Str) (env : HostEnv)
    (context msgPtr line1 line2 : Nat) (level : Int) (number : UInt32) :
    EStateM Exc (Reporting M) Unit := do
  Reporting.onFiles (FileHost.onHost (HostSession.checkContext context))
  let (file, line) ← Reporting.onFiles (FileHost.reportedPlace py fold env msgPtr)
  let left ← Reporting.onFiles (FileHost.reportedText line1)
  let right ← Reporting.onFiles (FileHost.reportedText line2)
  modify fun s => { s with
    messages := s.messages ++ [⟨level, left, file, line, signed32 number, right⟩] }

/-! ## Reading a specification again -/

section Reading

variable {M : ByteMemory} {py : Numerals} {fold : Str → Str} {env : HostEnv}

/-- A specification stays one while the VFS reads on. -/
theorem Specified.later {t : Tree} {s s₁ s₂ : Registry} {n p : Node}
    (h : Specified fold (t.view env) s s₁ n p) (hr : Reads fold (t.view env) s₁ s₂)
    (hs : s₂.Steady fold (t.view env)) (hknown : Known s₂) :
    Specified fold (t.view env) s s₂ n p :=
  ⟨h.reads.trans hr, hs, hknown, h.parent.reads hr, h.id_lt⟩

/-- It is the same one. -/
theorem specItems_later {t : Tree} {s₁ s₂ : Registry} {n : Node}
    (hs : s₁.Steady fold (t.view env)) (hn : s₁.vfs.Has n)
    (hr : Reads fold (t.view env) s₁ s₂) (p : Node) : specItems s₂ n p = specItems s₁ n p := by
  rw [specItems, specItems, hr.nodeName hs.wf hn]

/-- Reading a specification changes nothing in memory. -/
theorem readSpec_guest {view : HostView} {g : Guest M} {s : Registry} {address : Nat}
    {values : List (Str × Value)} (h : cwFileSpec.unpack address g = .ok values g) :
    wp (readSpec py fold view address) (fun _ s' => s'.guest = g) (fun _ s' => s'.guest = g)
      (⟨g, s⟩ : GuestFiles M) := by
  unfold readSpec
  rw [wp_bind, wp_onGuest, wp_iff_of_ok h, wp_bind, wp_get, wp_bind]
  refine wp_ofExcept (fun parent _ => ?_) fun _ _ => rfl
  dsimp only
  rw [wp_bind]
  refine wp_ofExcept (fun raw _ => ?_) fun _ _ => rfl
  cases decodeUtf16 raw with
  | none => rfl
  | some name =>
    dsimp only
    rw [wp_ite]
    refine ⟨fun _ => rfl, fun _ => ?_⟩
    rw [wp_onFiles]
    exact wp_mono (wp_self _ s) (fun _ _ _ => rfl) fun _ _ _ => rfl

end Reading

/-! ## One message -/

/-- The line of text at a pointer, which may be missing. -/
def LineAt {M : ByteMemory} (g : Guest M) (ptr : Nat) (line : List UInt8) : Prop :=
  ptr = 0 ∧ line = [] ∨ ptr ≠ 0 ∧ CString g ptr line ∧ line.length < 1 <<< 20

section Reports

variable {M : ByteMemory} {py : Numerals} {fold : Str → Str} {env : HostEnv}

theorem reportedText_eq {s : FileHost M} {ptr : Nat} {line : List UInt8}
    (h : LineAt s.host.guest ptr line) :
    FileHost.reportedText ptr s = .ok (decodeMacRoman line) s := by
  rcases h with ⟨rfl, rfl⟩ | ⟨hptr, hline, hlen⟩
  · rfl
  · rw [FileHost.reportedText, if_pos hptr]
    have hcstr : FileHost.onHost (HostSession.cstr ptr) s = .ok line s := by
      rw [FileHost.onHost, zoom_of_ok (HostSession.cstr_eq hptr hline hlen)]
    exact bind_of_ok hcstr

/-- The file and the line of a record whose specification can be read. -/
theorem reportedPlace_spec {s : FileHost M} {n : Node} {msgPtr : Nat}
    {values ref : List (Str × Value)} (hmsg : msgPtr ≠ 0)
    (hvalues : cwFileSpec.unpack msgPtr s.host.guest = .ok values s.host.guest)
    (href : cwMessageRef.unpack msgPtr s.host.guest = .ok ref s.host.guest)
    (hread : wp (readSpec py fold (s.tree.view env) msgPtr) (fun m _ => m = n)
      (fun _ _ => False) s.guestFiles) :
    wp (FileHost.reportedPlace py fold env msgPtr)
      (fun r s' => r = (some n, intField ref "linenumber") ∧
        s' = { s with search := { s.search with registry := s'.search.registry } })
      (fun _ _ => False) s := by
  have href' : FileHost.onGuest (cwMessageRef.unpack msgPtr) s = .ok ref s := by
    rw [FileHost.onGuest, FileHost.onHost, zoom_of_ok (HostSession.onGuest_of_ok href)]
    rfl
  rw [FileHost.reportedPlace, if_pos hmsg, wp_bind, wp_iff_of_ok href', wp_bind,
    FileHost.reportedFile, wp_tryCatch, wp_map, FileHost.readSpec, wp_bind, wp_get, wp_zoom]
  refine wp_mono (wp_and hread (readSpec_guest hvalues)) ?_ fun _ _ h => h.1.elim
  rintro m f ⟨rfl, hguest⟩
  refine ⟨rfl, ?_⟩
  rw [hguest]
  rfl

/-- **`CWReportMessage`** appends the message with the file of its record. -/
theorem reportMessage_appends {r : Reporting M} {n : Node} {ctx msgPtr line1 line2 : Nat}
    {level : Int} {number : UInt32} {values ref : List (Str × Value)} {left right : List UInt8}
    (hctx : r.files.host.session.ctxPtr = some ctx) (hmsg : msgPtr ≠ 0)
    (hvalues : cwFileSpec.unpack msgPtr r.files.host.guest = .ok values r.files.host.guest)
    (href : cwMessageRef.unpack msgPtr r.files.host.guest = .ok ref r.files.host.guest)
    (hread : wp (readSpec py fold (r.files.tree.view env) msgPtr) (fun m _ => m = n)
      (fun _ _ => False) r.files.guestFiles)
    (hleft : LineAt r.files.host.guest line1 left)
    (hright : LineAt r.files.host.guest line2 right) :
    wp (cwReportMessage py fold env ctx msgPtr line1 line2 level number)
      (fun _ r' => r'.messages = r.messages ++ [⟨level, decodeMacRoman left, some n,
          intField ref "linenumber", signed32 number, decodeMacRoman right⟩] ∧
        r'.files = { r.files with
          search := { r.files.search with registry := r'.files.search.registry } })
      (fun _ _ => False) r := by
  have hcheck : Reporting.onFiles (FileHost.onHost (HostSession.checkContext ctx)) r =
      .ok () r := by
    rw [Reporting.onFiles, FileHost.onHost,
      zoom_of_ok (zoom_of_ok (HostSession.checkContext_eq hctx))]
  have htext : ∀ (s : FileHost M) {ptr line}, s.host = r.files.host →
      LineAt r.files.host.guest ptr line →
      Reporting.onFiles (FileHost.reportedText ptr) ⟨s, r.messages⟩ =
        .ok (decodeMacRoman line) ⟨s, r.messages⟩ := by
    intro s ptr line hs hline
    rw [← hs] at hline
    rw [Reporting.onFiles, zoom_of_ok (reportedText_eq hline)]
  rw [cwReportMessage, wp_bind, wp_iff_of_ok hcheck, wp_bind, Reporting.onFiles, wp_zoom]
  refine wp_mono (reportedPlace_spec hmsg hvalues href hread) ?_ fun _ _ h => h
  rintro _ s ⟨rfl, hs⟩
  have hhost : s.host = r.files.host := by
    rw [hs]
  dsimp only
  rw [wp_bind, wp_iff_of_ok (htext s hhost hleft), wp_bind, wp_iff_of_ok (htext s hhost hright),
    wp_modify]
  exact ⟨rfl, hs⟩

/-- **A message about a file that was loaded names that file.** The plug-in keeps the
specification that `CWFindAndLoadFile` has put into its record, and hands a copy of it over later,
when the VFS may have read more: the message that is appended has the node of the file, the line of
the record, the signed number and the two lines of text, and nothing else has changed. -/
theorem reportMessage_loaded {s s₁ : FileHost M} {r : Reporting M} {n : Node}
    {ctx infoPtr msgPtr line1 line2 : Nat} {level : Int} {number : UInt32}
    {former ref : List (Str × Value)} {text left right : List UInt8} (hpy : py.OnAscii)
    (hfold : CaseFolding fold) (hlist : (s.tree.view env).Listable)
    (hn : Specifiable fold env s.tree s.search.registry n)
    (hloaded : FileHost.Loaded py fold env infoPtr former n text s s₁)
    (hinfo : s₁.host.guest.Accessible infoPtr cwFileInfo.size)
    (htree : r.files.tree = s.tree)
    (hreads : Reads fold (s.tree.view env) s₁.search.registry r.files.search.registry)
    (hsteady : r.files.search.registry.Steady fold (s.tree.view env))
    (hknown : Known r.files.search.registry)
    (hctx : r.files.host.session.ctxPtr = some ctx) (hmsg : msgPtr ≠ 0)
    (hplace : r.files.host.guest.Accessible msgPtr cwMessageRef.size)
    (hcopy : ByteMemory.bytes r.files.host.guest.uc msgPtr cwFileSpec.size =
      ByteMemory.bytes s₁.host.guest.uc (infoPtr + 20) cwFileSpec.size)
    (href : cwMessageRef.unpack msgPtr r.files.host.guest = .ok ref r.files.host.guest)
    (hleft : LineAt r.files.host.guest line1 left)
    (hright : LineAt r.files.host.guest line2 right) :
    wp (cwReportMessage py fold env ctx msgPtr line1 line2 level number)
      (fun _ r' => r'.messages = r.messages ++ [⟨level, decodeMacRoman left, some n,
          intField ref "linenumber", signed32 number, decodeMacRoman right⟩] ∧
        r'.files = { r.files with
          search := { r.files.search with registry := r'.files.search.registry } })
      (fun _ _ => False) r := by
  obtain ⟨p, hspec, hunpack⟩ := hloaded.specified
  have hfrom : s₁.host.guest.Accessible (infoPtr + 20) cwFileSpec.size :=
    hinfo.sub (Nat.le_add_right infoPtr 20)
      (show infoPtr + 20 + 592 ≤ infoPtr + 614 by omega)
  have hto : r.files.host.guest.Accessible msgPtr cwFileSpec.size :=
    hplace.sub (Nat.le_refl _) (show msgPtr + 592 ≤ msgPtr + 608 by omega)
  have hvalues := (cwFileSpec_built hpy).unpack_congr hfrom hto hcopy hunpack
  have hitems := specItems_later hspec.steady (hspec.reads.has hn.has) hreads p
  rw [← hitems] at hvalues
  have hread : wp (readSpec py fold (s.tree.view env) msgPtr) (fun m _ => m = n)
      (fun _ _ => False) r.files.guestFiles :=
    hn.readSpec hfold hlist (hspec.later hreads hsteady hknown) hvalues
  rw [← htree] at hread
  exact reportMessage_appends hctx hmsg hvalues href hread hleft hright

end Reports

/-- A message about the empty file of the small tree, with the record where the specification was
handed out. -/
theorem reportMessage_loaded_file : ∃ (r : Reporting ByteMemory.flat) (ref : List (Str × Value)),
    wp (cwReportMessage asciiNumerals id calm Guest.scratchBase 0x2014 0x1000 0 2 7)
      (fun _ r' => r'.messages = r.messages ++ [⟨2, decodeMacRoman [0x73, 0x2F, 0x66],
          some { fileNode with id := 4 }, intField ref "linenumber", signed32 7,
          decodeMacRoman []⟩] ∧
        r'.files = { r.files with
          search := { r.files.search with registry := r'.files.search.registry } })
      (fun _ _ => False) r := by
  have hloads := FileHost.findAndLoadFile_loads_file
  have hmapped : ∀ x, ByteMemory.flat.mapped FileHost.namedHost.host.guest.uc x := fun _ => rfl
  have hscratch : FileHost.namedHost.host.scratch = Guest.scratchBase + 64 := rfl
  have hname : FileHost.namedHost.host.guest.byte 0x1000 = 0x73 ∧
      FileHost.namedHost.host.guest.byte 0x1001 = 0x2F ∧
      FileHost.namedHost.host.guest.byte 0x1002 = 0x66 ∧
      FileHost.namedHost.host.guest.byte 0x1003 = 0 := ⟨rfl, rfl, rfl, rfl⟩
  have hcontext : FileHost.namedHost.host.session.ctxPtr = some Guest.scratchBase := rfl
  have htree : FileHost.namedHost.tree = smallTree := by
    rw [FileHost.namedHost]
  have hlist := smallTree_listable
  have hn := FileHost.foundSearch_specifiable
  rw [← htree] at hlist hn
  -- The session is a name from here on, which nothing evaluates.
  generalize FileHost.namedHost = s at *
  obtain ⟨former, -, hloads⟩ := hloads
  obtain ⟨-, s₁, -, -, hloaded⟩ := wp_exists_ok hloads
  have hbyte : ∀ x, x < 0x2000 → s₁.host.guest.byte x = s.host.guest.byte x := by
    intro x hx
    have hbase : Guest.scratchBase = 0x2A000000 := rfl
    have hptr := Guest.le_alignUp s.host.scratch (show 0 < 4 by decide)
    refine hloaded.frame x (fun h => Nat.not_le.mpr hx h.1) fun h => ?_
    have hle : Guest.alignUp s.host.scratch 4 ≤ x := h.1
    omega
  have hacc : ∀ a n, a + n ≤ 2 ^ 32 → s₁.host.guest.Accessible a n := fun a n h =>
    ⟨fun x _ _ => (hloaded.mapped x).mpr (hmapped x), h⟩
  have hat : ∀ x b, x < 0x2000 → s.host.guest.byte x = b →
      ByteMemory.flat.mapped s₁.host.guest.uc (x % 2 ^ 32) ∧
        s₁.host.guest.byte (x % 2 ^ 32) = b := by
    intro x b hx hb
    rw [Nat.mod_eq_of_lt (by omega)]
    exact ⟨(hloaded.mapped x).mpr (hmapped x), (hbyte x hx).trans hb⟩
  have hline : CString s₁.host.guest 0x1000 [0x73, 0x2F, 0x66] :=
    ⟨hat _ _ (by decide) hname.1, by decide, hat _ _ (by decide) hname.2.1, by decide,
      hat _ _ (by decide) hname.2.2.1, by decide, hat _ _ (by decide) hname.2.2.2⟩
  obtain ⟨ref, href⟩ := (cwMessageRef_built asciiNumerals_onAscii).unpacks
    (ByteMemory.bytes_length s₁.host.guest.uc 0x2014 cwMessageRef.size)
  obtain ⟨p, hspec, -⟩ := hloaded.specified
  have hctx : s₁.host.session.ctxPtr = some Guest.scratchBase := by
    rw [hloaded.host]
    exact hcontext
  have hplace : s₁.host.guest.Accessible 0x2014 cwMessageRef.size := hacc _ _ (by decide)
  have hinfo : s₁.host.guest.Accessible 0x2000 cwFileInfo.size := hacc _ _ (by decide)
  have hsame : ByteMemory.bytes s₁.host.guest.uc 0x2014 cwFileSpec.size =
      ByteMemory.bytes s₁.host.guest.uc (0x2000 + 20) cwFileSpec.size :=
    congrArg (fun a => ByteMemory.bytes s₁.host.guest.uc a cwFileSpec.size) (by decide)
  exact ⟨⟨s₁, []⟩, ref, reportMessage_loaded (s := { s with search := FileHost.foundSearch })
    asciiNumerals_onAscii id_caseFolding hlist hn hloaded hinfo hloaded.tree
    (.refl hspec.steady.wf) hspec.steady hspec.known hctx (by decide) hplace hsame
    (Struct.unpack_eq hplace href) (.inr ⟨by decide, hline, by decide⟩) (.inl ⟨rfl, rfl⟩)⟩

end Cwhost
