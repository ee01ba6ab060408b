import Cwhost.Carbon.System
import Cwhost.Guest.Args
import Cwhost.Lib.MemoryRuns
import Cwhost.Lib.Ranges
import Cwhost.Lib.Utf16
import Cwhost.MacRoman

/-!
# ConvertFromUnicodeToText (`carbon/text.py`)

The shim converts UTF-16 text in guest memory to MacRoman, into a buffer that may be too small, and
reports how much it has read and written. A caller whose buffer was too small goes on with the text
behind what was read.

* `convertText`: what the shim computes, a `Report`; `store`: what it writes of it.
* `Accepted`: a call with the text of its input buffer that the shim does not refuse.
* `Report.Agrees`: the part read and the part written are the same.
* `Resumed`: a run of calls, each on the text the one before has left.

`convert_agrees_iff`: **a report agrees exactly when the whole text fits in the buffer**: the shim
reports the whole text as read also when it has cut the output.
-/

namespace Cwhost.Carbon

open Lib

/-! ## The code -/

/-- The guest, and the `text_infos` of the session. -/
structure TextManager (M : ByteMemory) where
  guest : Guest M
  textInfos : Option (Dict Nat Nat)

/-- A shim of the Text Encoding Converter. -/
abbrev TextM (M : ByteMemory) := EStateM Exc (TextManager M)

/-- `K_UNICODE_LOOSE_MAPPINGS`. -/
def looseMappings : Nat := 1 <<< 5

/-- The arguments of a conversion. -/
structure ConversionArgs where
  info : Nat
  inputLen : Nat
  inputPtr : Nat
  controlFlags : Nat
  offsetCount : Nat
  offsetArray : Nat
  offsetCountOut : Nat
  offsetArrayOut : Nat
  outputCapacity : Nat
  inputRead : Nat
  outputWritten : Nat
  outputPtr : Nat
  deriving DecidableEq, Repr

/-- The types of the arguments. -/
def conversionTypes : List ArgType :=
  [.ptr, .u32, .ptr, .u32, .u32, .ptr, .ptr, .ptr, .u32, .ptr, .ptr, .ptr]

/-- What a conversion reports: how many units it has read, the bytes it has made of them, and how
many it says there are. -/
structure Report where
  inputRead : Nat
  output : List UInt8
  outputWritten : Nat
  deriving DecidableEq, Repr

section Code

variable {M : ByteMemory}

/-- `_conversion_args`. -/
def conversionArgs (regs : Regs) : EStateM Exc (Guest M) ConversionArgs := do
  match ← Guest.args regs (conversionTypes.map ArgType.name) with
  | [.int info, .int inputLen, .int inputPtr, .int controlFlags, .int offsetCount,
      .int offsetArray, .int offsetCountOut, .int offsetArrayOut, .int outputCapacity,
      .int inputRead, .int outputWritten, .int outputPtr] =>
    return {
      info := info.toNat
      inputLen := inputLen.toNat
      inputPtr := inputPtr.toNat
      controlFlags := controlFlags.toNat
      offsetCount := offsetCount.toNat
      offsetArray := offsetArray.toNat
      offsetCountOut := offsetCountOut.toNat
      offsetArrayOut := offsetArrayOut.toNat
      outputCapacity := outputCapacity.toNat
      inputRead := inputRead.toNat
      outputWritten := outputWritten.toNat
      outputPtr := outputPtr.toNat }
  | _ => throw .valueError

/-- Work in guest memory. -/
def inGuest {α : Type} (x : EStateM Exc (Guest M) α) : TextM M α :=
  zoom TextManager.guest (fun s g => { s with guest := g }) x

/-- `_encoding_info`. -/
def encodingInfo : TextM M (Dict Nat Nat) := do
  match (← get).textInfos with
  | some infos => return infos
  | none => do
    modify fun s => { s with textInfos := some .empty }
    return .empty

/-- What `ConvertFromUnicodeToText` checks of its arguments. -/
def checkConversion (c : ConversionArgs) : Except Exc Unit := do
  -- The bits of the 32-bit word other than the loose mappings.
  if c.controlFlags &&& (2 ^ 32 - 1 - looseMappings) ≠ 0 then
    throw (.hostError (s!"ConvertFromUnicodeToText iControlFlags {hex c.controlFlags} is not " ++
      "implemented (UnicodeConverter.h kUnicode* bits)"))
  if c.offsetCount ≠ 0 then
    throw (.hostError "Unicode text conversion offset arrays are not implemented")
  if c.inputLen ≠ 0 ∧ c.inputPtr = 0 then
    throw (.hostError ("ConvertFromUnicodeToText: iUnicodeText is NULL with " ++
      s!"iUnicodeLen={c.inputLen}"))
  if c.outputCapacity ≠ 0 ∧ c.outputPtr = 0 then
    throw (.hostError ("ConvertFromUnicodeToText: oOutputBuf is NULL with " ++
      s!"iOutputBufLen={c.outputCapacity}"))

/-- The text of the input buffer. A `UnicodeDecodeError` is a `ValueError`. -/
def inputText (c : ConversionArgs) : EStateM Exc (Guest M) Str := do
  if c.inputPtr ≠ 0 ∧ c.inputLen ≠ 0 then
    let raw ← Guest.read c.inputPtr (c.inputLen * 2)
    match decodeUtf16 raw with
    | some text => return text
    | none => throw .valueError
  else return []

/-- `ConvertFromUnicodeToText`, up to what it writes. -/
def convertText (c : ConversionArgs) : TextM M Report := do
  let infos ← encodingInfo
  if c.info ∉ infos.keys then
    throw (.hostError s!"ConvertFromUnicodeToText: unknown info token {hex c.info}")
  MonadExcept.ofExcept (checkConversion c)
  let text ← inGuest (inputText c)
  match encodeMacRoman text with
  | none =>
    throw (.hostError s!"Unicode text conversion cannot encode {pyRepr text} as MacRoman")
  | some encoded =>
    let written := min encoded.length c.outputCapacity
    return ⟨c.inputLen, encoded.take written, written⟩

/-- What `ConvertFromUnicodeToText` writes. -/
def store (c : ConversionArgs) (r : Report) : EStateM Exc (Guest M) Unit := do
  if c.outputPtr ≠ 0 ∧ r.outputWritten ≠ 0 then Guest.write c.outputPtr r.output
  if c.inputRead ≠ 0 then Guest.w32 c.inputRead r.inputRead
  if c.outputWritten ≠ 0 then Guest.w32 c.outputWritten r.outputWritten
  if c.offsetCountOut ≠ 0 then Guest.w32 c.offsetCountOut 0

/-- `ConvertFromUnicodeToText`. -/
def convertFromUnicodeToText (regs : Regs) : TextM M Returned := do
  let c ← inGuest (conversionArgs regs)
  let r ← convertText c
  inGuest (store c r)
  return ret 0

end Code

/-! ## Several writes -/

section Writes

variable {M : ByteMemory}

/-- The bytes a write covers. -/
def covered (w : Nat × List UInt8) : Range := (w.1 % 2 ^ 32, w.2.length)

/-- The writes, in order. -/
def writeAll : List (Nat × List UInt8) → EStateM Exc (Guest M) Unit
  | [] => pure ()
  | w :: ws => do
    Guest.write w.1 w.2
    writeAll ws

theorem writeAll_append (ws ws' : List (Nat × List UInt8)) :
    (writeAll (ws ++ ws') : EStateM Exc (Guest M) Unit) =
      writeAll ws >>= fun _ => writeAll ws' := by
  induction ws with
  | nil => rfl
  | cons w ws ih =>
    rw [List.cons_append, writeAll, writeAll, ih, bind_assoc]

/-- **Writes that cover no byte twice** are all in memory at the end; the other bytes stay. -/
theorem writeAll_spec {g : Guest M} {ws : List (Nat × List UInt8)}
    (hmapped : ∀ w ∈ ws, ByteMemory.MappedRange g.uc (w.1 % 2 ^ 32) w.2.length) :
    wp (writeAll ws)
      (fun _ g' => (∀ x, M.mapped g'.uc x ↔ M.mapped g.uc x) ∧
        (∀ x, (∀ w ∈ ws, ¬ Has (covered w) x) → g'.byte x = g.byte x) ∧
        (ws.Pairwise (fun w w' => ∀ x, Has (covered w) x → ¬ Has (covered w') x) →
          ∀ w ∈ ws, ByteMemory.bytes g'.uc (w.1 % 2 ^ 32) w.2.length = w.2))
      (fun _ _ => False) g := by
  induction ws generalizing g with
  | nil => exact ⟨fun _ => Iff.rfl, fun _ _ => rfl, fun _ w hw => absurd hw List.not_mem_nil⟩
  | cons w ws ih =>
    obtain ⟨hw, hws⟩ := List.forall_mem_cons.mp hmapped
    refine (wp_bind _ _).mpr (wp_mono (Guest.write_written hw) (fun _ g₁ h₁ => ?_) fun _ _ h => h)
    refine wp_mono (ih fun w' hw' => h₁.mappedRange (hws w' hw')) (fun _ g' h => ?_) fun _ _ h => h
    obtain ⟨hmap, hframe, hbytes⟩ := h
    refine ⟨fun x => (hmap x).trans (h₁.mapped x), fun x hx => ?_, fun hpair => ?_⟩
    · obtain ⟨hxw, hxws⟩ := List.forall_mem_cons.mp hx
      exact (hframe x hxws).trans (h₁.frame x hxw)
    · obtain ⟨hapart, hpair⟩ := List.pairwise_cons.mp hpair
      refine List.forall_mem_cons.mpr ⟨?_, hbytes hpair⟩
      -- The later writes leave the bytes of the first one alone.
      refine (ByteMemory.bytes_congr fun x h1 h2 => hframe x fun w' hw' => ?_).trans h₁.data_eq
      exact hapart w' hw' x ⟨h1, h2⟩

end Writes

/-! ## A call -/

namespace ConversionArgs

/-- The arguments as a caller passes them. -/
def passed (c : ConversionArgs) : List (ArgType × ArgValue) :=
  conversionTypes.zip
    [.int c.info, .int c.inputLen, .int c.inputPtr, .int c.controlFlags, .int c.offsetCount,
      .int c.offsetArray, .int c.offsetCountOut, .int c.offsetArrayOut, .int c.outputCapacity,
      .int c.inputRead, .int c.outputWritten, .int c.outputPtr]

/-- The writes for a report. -/
def writes (c : ConversionArgs) (r : Report) : List (Nat × List UInt8) :=
  (if c.outputPtr ≠ 0 ∧ r.outputWritten ≠ 0 then [(c.outputPtr, r.output)] else []) ++
  ((if c.inputRead ≠ 0 then [(c.inputRead, toBE 4 (r.inputRead % 2 ^ 32))] else []) ++
  ((if c.outputWritten ≠ 0 then [(c.outputWritten, toBE 4 (r.outputWritten % 2 ^ 32))] else []) ++
  (if c.offsetCountOut ≠ 0 then [(c.offsetCountOut, toBE 4 (0 % 2 ^ 32))] else [])))

end ConversionArgs

/-- The units read and the bytes written are the same part of the text. -/
structure Report.Agrees (r : Report) (text : Str) : Prop where
  written : r.outputWritten = r.output.length
  read : r.inputRead ≤ text.length
  encodes : encodeMacRoman (text.take r.inputRead) = some r.output

section Call

variable {M : ByteMemory}

/-- A call the shim does not refuse: the arguments are placed by the rule of the caller, the token
is one of the session, no pointer that is used is null, the memory is mapped; the input buffer
holds `text`, in the Basic Multilingual Plane, which is `encoded` in MacRoman. -/
structure Accepted (s : TextManager M) (regs : Regs) (c : ConversionArgs) (text : Str)
    (encoded : List UInt8) : Prop where
  placed : Guest.Placed regs s.guest c.passed 0 0
  token : ∃ infos, s.textInfos = some infos ∧ c.info ∈ infos.keys
  flags : c.controlFlags = 0 ∨ c.controlFlags = looseMappings
  offsets : c.offsetCount = 0
  pointers : c.inputPtr ≠ 0 ∧ c.outputPtr ≠ 0 ∧ c.inputRead ≠ 0 ∧ c.outputWritten ≠ 0
  length : c.inputLen = text.length
  plane : ∀ ch ∈ text, ch.toNat < 0x10000
  encodes : encodeMacRoman text = some encoded
  input : ByteMemory.MappedRange s.guest.uc c.inputPtr (c.inputLen * 2)
  holds : ByteMemory.bytes s.guest.uc c.inputPtr (c.inputLen * 2) = encodeUtf16 text
  output : ByteMemory.MappedRange s.guest.uc c.outputPtr (min text.length c.outputCapacity)
  reports : ∀ p ∈ [c.inputRead, c.outputWritten, c.offsetCountOut], p ≠ 0 →
    ByteMemory.MappedRange s.guest.uc p 4

variable {s : TextManager M} {regs : Regs} {c : ConversionArgs} {text : Str}
  {encoded : List UInt8}

/-- The arguments are 32-bit words. -/
theorem Accepted.word_lt (h : Accepted s regs c text encoded) : c.inputLen < 2 ^ 32 ∧
    c.inputPtr < 2 ^ 32 ∧ c.offsetCountOut < 2 ^ 32 ∧ c.outputCapacity < 2 ^ 32 ∧
    c.inputRead < 2 ^ 32 ∧ c.outputWritten < 2 ^ 32 ∧ c.outputPtr < 2 ^ 32 := by
  have hlt : ∀ n : Nat, 0 ≤ (n : Int) ∧ (n : Int) < 2 ^ 32 → n < 2 ^ 32 := fun n hn => by
    have := hn.2
    omega
  obtain ⟨-, -, h₁, -, h₂, -, -, -, -, -, -, -, h₃, -, -, -, h₄, -, h₅, -, h₆, -, h₇, -, -⟩ :=
    h.placed
  exact ⟨hlt _ h₁, hlt _ h₂, hlt _ h₃, hlt _ h₄, hlt _ h₅, hlt _ h₆, hlt _ h₇⟩

/-- **The arguments** are read as they were placed. -/
theorem conversionArgs_placed {g : Guest M} (h : Guest.Placed regs g c.passed 0 0) :
    conversionArgs regs g = .ok c g := by
  have hfloats : 0 + (c.passed.map fun a => a.1.floats).sum < 32 := by
    simp [ConversionArgs.passed, conversionTypes, ArgType.floats]
  have hargs := Guest.argsFrom_placed h hfloats
  have hnames := Guest.args_names (M := M) regs conversionTypes
  rw [conversionArgs, bind_of_ok ((congrFun hnames g).trans hargs)]
  rfl

/-- The report of an accepted call. -/
def reportOf (text : Str) (encoded : List UInt8) (capacity : Nat) : Report :=
  ⟨text.length, encoded.take (min encoded.length capacity), min encoded.length capacity⟩

theorem Accepted.inputText (h : Accepted s regs c text encoded) :
    Carbon.inputText c s.guest = .ok text s.guest := by
  rw [Carbon.inputText]
  by_cases hlen : c.inputLen = 0
  · have hnil : text = [] := List.length_eq_zero_iff.mp (h.length ▸ hlen)
    rw [if_neg (by simp [hlen]), hnil]
    rfl
  rw [if_pos ⟨h.pointers.1, hlen⟩]
  have hread : Guest.read c.inputPtr (c.inputLen * 2) s.guest =
      .ok (encodeUtf16 text) s.guest := by
    have hmem := ByteMemory.memRead_eq h.input
    rw [h.holds] at hmem
    rw [Guest.read, bind_of_ok (get_eq _)]
    simp only [Nat.mod_eq_of_lt h.word_lt.2.1, hmem]
    rfl
  rw [bind_of_ok hread, decodeUtf16_encode]
  rfl

theorem Accepted.checked (h : Accepted s regs c text encoded) : checkConversion c = .ok () := by
  have hflags : ¬ (c.controlFlags &&& (2 ^ 32 - 1 - looseMappings) ≠ 0) := by
    rcases h.flags with hzero | hloose
    · rw [hzero]
      decide
    · rw [hloose]
      decide
  rw [checkConversion, if_neg hflags, if_neg (not_not.mpr h.offsets),
    if_neg fun hnull => h.pointers.1 hnull.2, if_neg fun hnull => h.pointers.2.1 hnull.2]
  rfl

/-- **What the shim computes** in an accepted call. -/
theorem Accepted.convertText (h : Accepted s regs c text encoded) :
    Carbon.convertText c s = .ok (reportOf text encoded c.outputCapacity) s := by
  obtain ⟨infos, hinfos, htoken⟩ := h.token
  have hinfo : (encodingInfo : TextM M _) s = .ok infos s := by
    rw [encodingInfo, bind_of_ok (get_eq s), hinfos]
    rfl
  have htext : (inGuest (Carbon.inputText c) : TextM M _) s = .ok text s := by
    rw [inGuest, zoom, h.inputText]
  rw [Carbon.convertText, bind_of_ok hinfo, if_neg (not_not.mpr htoken), h.checked]
  refine (bind_of_ok htext).trans ?_
  rw [h.encodes, h.length]
  rfl

/-- A report agrees when nothing was cut, and only then. -/
theorem reportOf_agrees_iff (h : encodeMacRoman text = some encoded) (capacity : Nat) :
    (reportOf text encoded capacity).Agrees text ↔ text.length ≤ capacity := by
  have hlen := encodeMacRoman_length h
  constructor
  · intro hagrees
    have hencodes : encodeMacRoman (text.take text.length) =
        some (encoded.take (min encoded.length capacity)) := hagrees.encodes
    rw [List.take_length, h, Option.some.injEq] at hencodes
    have hcut := congrArg List.length hencodes
    rw [List.length_take] at hcut
    omega
  · intro hfits
    have hmin : min encoded.length capacity = encoded.length := by omega
    refine ⟨?_, Nat.le_refl _, ?_⟩
    · simp [reportOf]
    · show encodeMacRoman (text.take text.length) = _
      rw [List.take_length, h, reportOf, hmin, List.take_length]

theorem writeAll_if {p : Prop} [Decidable p] (w : Nat × List UInt8) :
    (writeAll (if p then [w] else []) : EStateM Exc (Guest M) Unit) =
      if p then Guest.write w.1 w.2 else pure () := by
  by_cases hp : p
  · rw [if_pos hp, if_pos hp, writeAll, writeAll]
    exact bind_pure _
  · rw [if_neg hp, if_neg hp, writeAll]

theorem if_bind {p : Prop} [Decidable p] (x : EStateM Exc (Guest M) Unit)
    (f : Unit → EStateM Exc (Guest M) Unit) :
    ((if p then x else pure ()) >>= f) = if p then x >>= f else f () := by
  by_cases hp : p
  · rw [if_pos hp, if_pos hp]
  · rw [if_neg hp, if_neg hp, pure_bind]

/-- What the shim writes, as a list. -/
theorem store_eq (c : ConversionArgs) (r : Report) :
    (store c r : EStateM Exc (Guest M) Unit) = writeAll (c.writes r) := by
  rw [ConversionArgs.writes, writeAll_append, writeAll_append, writeAll_append, writeAll_if,
    writeAll_if, writeAll_if, writeAll_if, if_bind, if_bind, if_bind]
  rfl

/-- No byte is written twice. -/
def ConversionArgs.Separate (c : ConversionArgs) (r : Report) : Prop :=
  (c.writes r).Pairwise fun w w' => ∀ x, Has (covered w) x → ¬ Has (covered w') x

/-- The memory after a call that has reported `r`: nothing but the output buffer and the counters
has changed, and they hold the report. -/
structure Reported (g g' : Guest M) (c : ConversionArgs) (r : Report) : Prop where
  short : r.output.length ≤ c.outputCapacity
  frame : ∀ x, ¬ Has (c.outputPtr, c.outputCapacity) x →
    (∀ p ∈ [c.inputRead, c.outputWritten, c.offsetCountOut], p ≠ 0 → ¬ Has (p, 4) x) →
    g'.byte x = g.byte x
  counters : c.Separate r → g'.word c.inputRead = r.inputRead ∧
    g'.word c.outputWritten = r.outputWritten ∧
    ByteMemory.bytes g'.uc c.outputPtr r.output.length = r.output

theorem mem_writes {r : Report} {w : Nat × List UInt8} : w ∈ c.writes r ↔
    (c.outputPtr ≠ 0 ∧ r.outputWritten ≠ 0) ∧ w = (c.outputPtr, r.output) ∨
    c.inputRead ≠ 0 ∧ w = (c.inputRead, toBE 4 (r.inputRead % 2 ^ 32)) ∨
    c.outputWritten ≠ 0 ∧ w = (c.outputWritten, toBE 4 (r.outputWritten % 2 ^ 32)) ∨
    c.offsetCountOut ≠ 0 ∧ w = (c.offsetCountOut, toBE 4 (0 % 2 ^ 32)) := by
  have hmem : ∀ {p : Prop} [Decidable p] {v : Nat × List UInt8},
      w ∈ (if p then [v] else []) ↔ p ∧ w = v := by
    intro p _ v
    by_cases hp : p
    · simp [hp]
    · simp [hp]
  rw [ConversionArgs.writes, List.mem_append, List.mem_append, List.mem_append, hmem, hmem, hmem,
    hmem]

/-- A word that has been written. -/
theorem word_of_bytes {g : Guest M} {p n : Nat} (hp : p < 2 ^ 32) (hn : n < 2 ^ 32)
    (h : ByteMemory.bytes g.uc (p % 2 ^ 32) (toBE 4 (n % 2 ^ 32)).length = toBE 4 (n % 2 ^ 32)) :
    g.word p = n := by
  rw [toBE_length, Nat.mod_eq_of_lt hp, Nat.mod_eq_of_lt hn] at h
  rw [Guest.word, ByteMemory.word, h]
  exact beNat_toBE_of_lt hn

theorem Accepted.output_length (h : Accepted s regs c text encoded) :
    (reportOf text encoded c.outputCapacity).output.length = min text.length c.outputCapacity := by
  have hlen := encodeMacRoman_length h.encodes
  rw [reportOf, List.length_take]
  omega

/-- What is written fits where it is written. -/
theorem Accepted.writes_mapped (h : Accepted s regs c text encoded) :
    ∀ w ∈ c.writes (reportOf text encoded c.outputCapacity),
      ByteMemory.MappedRange s.guest.uc (w.1 % 2 ^ 32) w.2.length := by
  obtain ⟨-, -, hcount, -, hread, hwritten, hptr⟩ := h.word_lt
  intro w hw
  rcases mem_writes.mp hw with ⟨-, rfl⟩ | ⟨hp, rfl⟩ | ⟨hp, rfl⟩ | ⟨hp, rfl⟩
  · rw [Nat.mod_eq_of_lt hptr, h.output_length]
    exact h.output
  · rw [Nat.mod_eq_of_lt hread, toBE_length]
    exact h.reports _ (by simp) hp
  · rw [Nat.mod_eq_of_lt hwritten, toBE_length]
    exact h.reports _ (by simp) hp
  · rw [Nat.mod_eq_of_lt hcount, toBE_length]
    exact h.reports _ (by simp) hp

/-- **Storing the report** of an accepted call. -/
theorem Accepted.stored (h : Accepted s regs c text encoded) :
    wp (store c (reportOf text encoded c.outputCapacity))
      (fun _ g' => Reported s.guest g' c (reportOf text encoded c.outputCapacity))
      (fun _ _ => False) s.guest := by
  have hlen := encodeMacRoman_length h.encodes
  have hlength := h.length
  obtain ⟨hinput, -, hcount, -, hread, hwritten, hptr⟩ := h.word_lt
  have houtput := h.output_length
  have hmapped := h.writes_mapped
  generalize hr : reportOf text encoded c.outputCapacity = r at houtput hmapped ⊢
  have hunits : r.inputRead < 2 ^ 32 := by
    rw [← hr, reportOf, ← hlength]
    exact hinput
  have hbytes : r.outputWritten < 2 ^ 32 := by
    rw [← hr, reportOf]
    simp only
    omega
  rw [store_eq]
  refine wp_mono (writeAll_spec hmapped) (fun _ g' hall => ?_) fun _ _ hf => hf
  obtain ⟨-, hframe, hwrites⟩ := hall
  refine ⟨by omega, fun x hx hcounters => hframe x fun w hw => ?_, fun hsep => ⟨?_, ?_, ?_⟩⟩
  · rcases mem_writes.mp hw with ⟨-, rfl⟩ | ⟨hp, rfl⟩ | ⟨hp, rfl⟩ | ⟨hp, rfl⟩
    · rintro ⟨h1, h2⟩
      simp only [covered, Nat.mod_eq_of_lt hptr, houtput] at h1 h2
      exact hx ⟨h1, by simp only; omega⟩
    · rw [covered, toBE_length, Nat.mod_eq_of_lt hread]
      exact hcounters _ (by simp) hp
    · rw [covered, toBE_length, Nat.mod_eq_of_lt hwritten]
      exact hcounters _ (by simp) hp
    · rw [covered, toBE_length, Nat.mod_eq_of_lt hcount]
      exact hcounters _ (by simp) hp
  · have hmem := mem_writes (r := r).mpr (.inr (.inl ⟨h.pointers.2.2.1, rfl⟩))
    exact word_of_bytes hread hunits (hwrites hsep _ hmem)
  · have hmem := mem_writes (r := r).mpr (.inr (.inr (.inl ⟨h.pointers.2.2.2, rfl⟩)))
    exact word_of_bytes hwritten hbytes (hwrites hsep _ hmem)
  · by_cases hzero : r.outputWritten = 0
    · have hnil : r.output = [] := by
        rw [← hr, reportOf] at hzero ⊢
        simp only at hzero ⊢
        rw [hzero, List.take_zero]
      rw [hnil]
      rfl
    · have hdata := hwrites hsep _ (mem_writes.mpr (.inl ⟨⟨h.pointers.2.1, hzero⟩, rfl⟩))
      rwa [Nat.mod_eq_of_lt hptr] at hdata

/-- **A call** that is accepted returns, and its report is in memory. -/
theorem Accepted.reported (h : Accepted s regs c text encoded) :
    wp (convertFromUnicodeToText regs)
      (fun returned s' => returned = ret 0 ∧
        Reported s.guest s'.guest c (reportOf text encoded c.outputCapacity))
      (fun _ _ => False) s := by
  have hargs : (inGuest (conversionArgs regs) : TextM M _) s = .ok c s := by
    rw [inGuest, zoom, conversionArgs_placed h.placed]
  rw [convertFromUnicodeToText]
  show wp (_ >>= _) _ _ s
  rw [wp_bind, wp_iff_of_ok hargs, wp_bind, wp_iff_of_ok h.convertText, wp_bind, inGuest, wp_zoom]
  exact wp_mono h.stored (fun _ _ hreport => ⟨rfl, hreport⟩) fun _ _ hf => hf

end Call

/-! ## A run of calls -/

section Run

/-- A run of calls with positive capacities, each on what the report of the one before says is left;
the capacities, and the bytes the reports say were written. -/
inductive Resumed (M : ByteMemory) : Str → List Nat → List (List UInt8) → Prop
  | done : Resumed M [] [] []
  | call {s s' : TextManager M} {regs : Regs} {c : ConversionArgs} {text : Str}
    {encoded : List UInt8} {r : Report} {capacities : List Nat} {outputs : List (List UInt8)}
    (accepted : Accepted s regs c text encoded) (positive : 0 < c.outputCapacity)
    (report : convertText c s = .ok r s')
    (rest : Resumed M (text.drop r.inputRead) capacities outputs) :
    Resumed M text (c.outputCapacity :: capacities) (r.output.take r.outputWritten :: outputs)

variable {M : ByteMemory}

/-- Nothing comes of nothing. -/
theorem Resumed.nil {text : Str} {capacities : List Nat} {outputs : List (List UInt8)}
    (h : Resumed M text capacities outputs) (hnil : text = []) : outputs.flatten = [] := by
  induction h with
  | done => rfl
  | call accepted positive report rest ih =>
    have hlen := encodeMacRoman_length accepted.encodes
    rw [accepted.convertText] at report
    cases report
    rw [hnil] at hlen
    have hencoded := List.length_eq_zero_iff.mp hlen
    rw [List.flatten_cons, ih (by rw [hnil, List.drop_nil]), reportOf, hencoded]
    simp

/-- **A run** gives the encoding of the whole text exactly when the first buffer takes all of it. -/
theorem Resumed.flatten_iff {text : Str} {capacities : List Nat} {outputs : List (List UInt8)}
    (h : Resumed M text capacities outputs) :
    encodeMacRoman text = some outputs.flatten ↔
      ∀ capacity, capacities.head? = some capacity → text.length ≤ capacity := by
  cases h with
  | done =>
    constructor
    · intro _ capacity hcapacity
      cases hcapacity
    · intro _
      rfl
  | @call s s' regs c _ encoded r capacities outputs accepted positive report rest =>
    have hlen := encodeMacRoman_length accepted.encodes
    rw [accepted.convertText] at report
    cases report
    have hrest := rest.nil (List.drop_length ..)
    have hfirst : (reportOf text encoded c.outputCapacity).output.take
        (reportOf text encoded c.outputCapacity).outputWritten =
        encoded.take (min encoded.length c.outputCapacity) := by
      rw [reportOf, List.take_take, Nat.min_self]
    rw [List.flatten_cons, hrest, List.append_nil, hfirst, accepted.encodes, Option.some.injEq]
    constructor
    · rintro heq capacity hcapacity
      cases hcapacity
      have hcut := congrArg List.length heq
      rw [List.length_take] at hcut
      omega
    · intro hall
      have hfits := hall _ rfl
      rw [List.take_of_length_le (by omega)]

end Run

/-! ## The result -/

/-- **Text conversion.** An accepted call returns and changes the output buffer, within its
capacity, and the counters; what it reports as read and as written is the same part of the text
exactly when the whole text fits in the buffer. A run of calls, each on the text the one before has
left, gives the encoding of the whole text exactly when the first buffer takes all of it. -/
theorem convert_agrees_iff {M : ByteMemory} {s : TextManager M} {regs : Regs} {c : ConversionArgs}
    {text : Str} {encoded : List UInt8} (h : Accepted s regs c text encoded) :
    (∃ r, convertText c s = .ok r s ∧
      wp (convertFromUnicodeToText regs)
        (fun returned s' => returned = ret 0 ∧ Reported s.guest s'.guest c r)
        (fun _ _ => False) s ∧
      (r.Agrees text ↔ text.length ≤ c.outputCapacity)) ∧
    ∀ (capacities : List Nat) (outputs : List (List UInt8)), Resumed M text capacities outputs →
      (encodeMacRoman text = some outputs.flatten ↔
        ∀ capacity, capacities.head? = some capacity → text.length ≤ capacity) := by
  refine ⟨⟨_, h.convertText, h.reported, reportOf_agrees_iff h.encodes c.outputCapacity⟩, ?_⟩
  exact fun capacities outputs hrun => hrun.flatten_iff

/-! ## A buffer that is too small -/

/-- The arguments of a call with a buffer of one byte. -/
def shortCall : ConversionArgs where
  info := 0x500
  inputLen := 2
  inputPtr := 0x2000
  controlFlags := looseMappings
  offsetCount := 0
  offsetArray := 0
  offsetCountOut := 0
  offsetArrayOut := 0
  outputCapacity := 1
  inputRead := 0x3000
  outputWritten := 0x3004
  outputPtr := 0x3008

/-- The registers at that call. -/
def shortRegs : Regs where
  gpr i := [0, 0x1000, 0, 0x500, 2, 0x2000, 0x20].getD i.val 0
  fpr _ := 0
  pc := 0
  lr := 0
  ctr := 0
  cr := 0
  xer := 0
  msr := 0
  fpscr := 0

/-- A session with the token, the text `AB` and the arguments on the stack. -/
def shortSession : TextManager ByteMemory.flat where
  guest := ⟨(⟨fun _ => true, fun x => (lastByte [(0x2000, [0, 0x41, 0, 0x42]),
    (0x1038, toBE 4 1 ++ toBE 4 0x3000 ++ toBE 4 0x3004 ++ toBE 4 0x3008)] x).getD 0⟩ :
      ByteMemory.Flat)⟩
  textInfos := some (Dict.empty.set 0x500 0)

theorem shortCall_accepted :
    Accepted shortSession shortRegs shortCall ['A', 'B'] [0x41, 0x42] where
  placed :=
    ⟨⟨by decide, by decide⟩, ⟨_, .register 0 (by decide), by decide⟩,
      ⟨by decide, by decide⟩, ⟨_, .register 1 (by decide), by decide⟩,
      ⟨by decide, by decide⟩, ⟨_, .register 2 (by decide), by decide⟩,
      ⟨by decide, by decide⟩, ⟨_, .register 3 (by decide), by decide⟩,
      ⟨by decide, by decide⟩, ⟨_, .register 4 (by decide), by decide⟩,
      ⟨by decide, by decide⟩, ⟨_, .register 5 (by decide), by decide⟩,
      ⟨by decide, by decide⟩, ⟨_, .register 6 (by decide), by decide⟩,
      ⟨by decide, by decide⟩, ⟨_, .register 7 (by decide), by decide⟩,
      ⟨by decide, by decide⟩, ⟨_, .stack 8 (by decide) (fun _ _ _ => rfl), by decide⟩,
      ⟨by decide, by decide⟩, ⟨_, .stack 9 (by decide) (fun _ _ _ => rfl), by decide⟩,
      ⟨by decide, by decide⟩, ⟨_, .stack 10 (by decide) (fun _ _ _ => rfl), by decide⟩,
      ⟨by decide, by decide⟩, ⟨_, .stack 11 (by decide) (fun _ _ _ => rfl), by decide⟩, trivial⟩
  token := ⟨_, rfl, by decide⟩
  flags := .inr rfl
  offsets := rfl
  pointers := by decide
  length := rfl
  plane := by simp
  encodes := by decide
  input := fun _ _ _ => rfl
  holds := by decide
  output := fun _ _ _ => rfl
  reports := fun _ _ _ _ _ _ => rfl

theorem convert_agrees_iff_short :
    (∃ r, convertText shortCall shortSession = .ok r shortSession ∧
      wp (convertFromUnicodeToText shortRegs)
        (fun returned s' => returned = ret 0 ∧
          Reported shortSession.guest s'.guest shortCall r)
        (fun _ _ => False) shortSession ∧
      (r.Agrees ['A', 'B'] ↔ ['A', 'B'].length ≤ shortCall.outputCapacity)) ∧
    ∀ (capacities : List Nat) (outputs : List (List UInt8)),
      Resumed ByteMemory.flat ['A', 'B'] capacities outputs →
      (encodeMacRoman ['A', 'B'] = some outputs.flatten ↔
        ∀ capacity, capacities.head? = some capacity → ['A', 'B'].length ≤ capacity) :=
  convert_agrees_iff shortCall_accepted

/-- The shim says that it has read two units, of which it has written one. -/
theorem shortCall_disagrees :
    Accepted shortSession shortRegs shortCall ['A', 'B'] [0x41, 0x42] ∧
      convertText shortCall shortSession = .ok ⟨2, [0x41], 1⟩ shortSession ∧
      ¬ Report.Agrees ⟨2, [0x41], 1⟩ ['A', 'B'] := by
  refine ⟨shortCall_accepted, shortCall_accepted.convertText, fun h => ?_⟩
  have hencodes : encodeMacRoman (['A', 'B'].take 2) = some [0x41] := h.encodes
  revert hencodes
  decide

end Cwhost.Carbon
