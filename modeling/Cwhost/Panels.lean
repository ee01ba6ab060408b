import Cwhost.Errors
import Cwhost.Lib.Dict
import Cwhost.Lib.Layout
import Cwhost.Lib.Outcome
import Cwhost.MacRoman

/-!
# The preference records of the compiler (`panels.py`)

Four panels of settings, each serialized to a record of fixed length in which every flag has its
offset. `toBytes` fails with a `ValueError` on a setting that its field cannot hold.

* `fillBytes`: the flags of a panel, from a table of offsets, names and values; what has been
  written at each offset determines the values (`flags_eq`).
* `records_equal_iff`: equal records come from equal panels, **except that the code generator writes
  the function alignments 4 and 32 alike**; every record has the length of its panel.
-/

namespace Cwhost

open Lib

/-- A `ValueError`. -/
structure ValueError where
  text : String
  deriving DecidableEq, Repr

namespace Panels

/-! ## Fields -/

/-- `_byte`, and `_bool`, of an integer. -/
def byte (value : Int) (field : String) : Except ValueError UInt8 :=
  if 0 ≤ value ∧ value ≤ 0xFF then pure (UInt8.ofNat value.toNat)
  else throw ⟨s!"{field} is outside byte range: {value}"⟩

/-- `_pascal`. -/
def pascal (value : Str) (capacity : Nat) (field : String) : Except ValueError (List UInt8) :=
  match encodeMacRoman value with
  | none => throw ⟨s!"{field} is not representable in MacRoman"⟩
  | some raw =>
    if raw.length > capacity - 1 then throw ⟨s!"{field} is longer than {capacity - 1} bytes"⟩
    else
      pure (UInt8.ofNat raw.length :: raw ++ List.replicate (capacity - 1 - raw.length) 0)

/-- A flag of a panel: its offset in the record, the name of the setting, its value. -/
abbrev Flag := Nat × String × Int

/-- `for offset, name in offsets: data[offset] = _bool(getattr(self, name), name)`. -/
def fillBytes : List Flag → List UInt8 → Except ValueError (List UInt8)
  | [], data => pure data
  | (offset, name, value) :: rest, data => do
    let b ← byte value name
    fillBytes rest (data.set offset b)

/-- A categorical setting: its code or its name. -/
inductive Setting
  | int (code : Int)
  | str (name : Str)
  deriving DecidableEq, Repr

/-- `_categorical`, with `fold` for `str.casefold`. -/
def categorical (fold : Str → Str) (value : Setting) (mapping : List (Str × UInt8))
    (field : String) : Except ValueError UInt8 :=
  match value with
  | .str name =>
    match mapping.lookup ((fold name).filter fun c => c ≠ ' ') with
    | some code => pure code
    | none => throw ⟨s!"unknown {field}: {pyRepr name}"⟩
  | .int code => byte code field

end Panels

open Panels

/-! ## The panels -/

/-- `CCompilerPanel`, with the names of the settings shortened by `MWFrontEnd_C_`. -/
structure CCompilerPanel where
  cplusplus : Int := 1
  checkprotos : Int := 0
  arm : Int := 0
  trigraphs : Int := 0
  onlystdkeywords : Int := 0
  enumsalwaysint : Int := 0
  mpwpointerstyle : Int := 0
  ansistrict : Int := 0
  mpwcnewline : Int := 1
  wcharType : Int := 1
  enableexceptions : Int := 0
  dontreusestrings : Int := 0
  poolstrings : Int := 0
  dontinline : Int := 0
  useRTTI : Int := 0
  multibyteaware : Int := 0
  unsignedchars : Int := 0
  autoinline : Int := 0
  booltruefalse : Int := 0
  inlinelevel : Int := 0
  ecplusplus : Int := 0
  objectiveC : Int := 0
  deferCodegen : Int := 0
  templateparser : Int := 0
  c99 : Int := 0
  bottomupinline : Int := 1
  prefixname : Str := "MacHeadersCarbon.h".toList
  deriving DecidableEq

namespace CCompilerPanel

/-- `offsets`. -/
def flags (p : CCompilerPanel) : List Flag :=
  [(0x02, "MWFrontEnd_C_cplusplus", p.cplusplus),
    (0x03, "MWFrontEnd_C_checkprotos", p.checkprotos),
    (0x04, "MWFrontEnd_C_arm", p.arm),
    (0x05, "MWFrontEnd_C_trigraphs", p.trigraphs),
    (0x06, "MWFrontEnd_C_onlystdkeywords", p.onlystdkeywords),
    (0x07, "MWFrontEnd_C_enumsalwaysint", p.enumsalwaysint),
    (0x08, "MWFrontEnd_C_mpwpointerstyle", p.mpwpointerstyle),
    (0x29, "MWFrontEnd_C_ansistrict", p.ansistrict),
    (0x2A, "MWFrontEnd_C_mpwcnewline", p.mpwcnewline),
    (0x2B, "MWFrontEnd_C_wchar_type", p.wcharType),
    (0x2C, "MWFrontEnd_C_enableexceptions", p.enableexceptions),
    (0x2D, "MWFrontEnd_C_dontreusestrings", p.dontreusestrings),
    (0x2E, "MWFrontEnd_C_poolstrings", p.poolstrings),
    (0x2F, "MWFrontEnd_C_dontinline", p.dontinline),
    (0x30, "MWFrontEnd_C_useRTTI", p.useRTTI),
    (0x31, "MWFrontEnd_C_multibyteaware", p.multibyteaware),
    (0x32, "MWFrontEnd_C_unsignedchars", p.unsignedchars),
    (0x33, "MWFrontEnd_C_autoinline", p.autoinline),
    (0x34, "MWFrontEnd_C_booltruefalse", p.booltruefalse),
    (0x3A, "MWFrontEnd_C_ecplusplus", p.ecplusplus),
    (0x3B, "MWFrontEnd_C_objective_c", p.objectiveC),
    (0x3C, "MWFrontEnd_C_defer_codegen", p.deferCodegen),
    (0x3D, "MWFrontEnd_C_templateparser", p.templateparser),
    (0x3E, "MWFrontEnd_C_c99", p.c99),
    (0x3F, "MWFrontEnd_C_bottomupinline", p.bottomupinline)]

/-- `CCompilerPanel.to_bytes`. -/
def toBytes (p : CCompilerPanel) : Except ValueError (List UInt8) := do
  let data := assign (List.replicate 0x140 0) 0 2 (toBE 2 16)
  let data ← fillBytes p.flags data
  let inline_ := p.inlinelevel
  if ¬ (-0x8000 ≤ inline_ ∧ inline_ ≤ 0x7FFF) then
    throw ⟨"MWFrontEnd_C_inlinelevel is outside signed 16-bit range"⟩
  let data := assign data 0x38 0x3A (toBE 2 (inline_ % 2 ^ 16).toNat)
  let prefix_ ← pascal p.prefixname 0x100 "MWFrontEnd_C_prefixname"
  let data := assign data 0x40 0x140 prefix_
  -- The legacy area of 32 bytes mirrors a prefix that is not empty.
  if p.prefixname ≠ [] then
    let legacy ← pascal p.prefixname 0x20 "MWFrontEnd_C_prefixname"
    return assign data 0x09 0x29 legacy
  else return data

end CCompilerPanel

/-- `CWarningsPanel`, with the names of the settings shortened by `MWWarning_C_`. -/
structure CWarningsPanel where
  warnIllpragma : Int := 1
  warnEmptydecl : Int := 1
  warnPossunwant : Int := 1
  warnUnusedvar : Int := 1
  warnUnusedarg : Int := 1
  warnExtracomma : Int := 1
  pedantic : Int := 1
  warningerrors : Int := 0
  warnHidevirtual : Int := 1
  warnImplicitconv : Int := 0
  warnNotinlined : Int := 0
  warnStructclass : Int := 1
  deriving DecidableEq

namespace CWarningsPanel

/-- `_FIELDS`, with their values. -/
def fields (p : CWarningsPanel) : List (String × Int) :=
  [("MWWarning_C_warn_illpragma", p.warnIllpragma),
    ("MWWarning_C_warn_emptydecl", p.warnEmptydecl),
    ("MWWarning_C_warn_possunwant", p.warnPossunwant),
    ("MWWarning_C_warn_unusedvar", p.warnUnusedvar),
    ("MWWarning_C_warn_unusedarg", p.warnUnusedarg),
    ("MWWarning_C_warn_extracomma", p.warnExtracomma),
    ("MWWarning_C_pedantic", p.pedantic),
    ("MWWarning_C_warningerrors", p.warningerrors),
    ("MWWarning_C_warn_hidevirtual", p.warnHidevirtual),
    ("MWWarning_C_warn_implicitconv", p.warnImplicitconv),
    ("MWWarning_C_warn_notinlined", p.warnNotinlined),
    ("MWWarning_C_warn_structclass", p.warnStructclass)]

/-- `CWarningsPanel.to_bytes`. -/
def toBytes (p : CWarningsPanel) : Except ValueError (List UInt8) := do
  let bytes ← p.fields.mapM fun field => byte field.2 field.1
  return [0, 5] ++ bytes

end CWarningsPanel

/-- `PPCGlobalOptimizerPanel`, with the names of the settings shortened by
`GlobalOptimizer_PPC_`. -/
structure PPCGlobalOptimizerPanel where
  optimizationlevel : Int := 4
  optfor : Setting := .int 0
  deriving DecidableEq

namespace PPCGlobalOptimizerPanel

/-- `optfor`, from its name or its code. -/
def target (fold : Str → Str) : Setting → Except ValueError Int
  | .str name =>
    let normalized := fold name
    if normalized = "speed".toList then pure 0
    else if normalized = "size".toList then pure 1
    else throw ⟨s!"unknown optimizer target: {pyRepr name}"⟩
  | .int code => pure code

/-- `PPCGlobalOptimizerPanel.to_bytes`. -/
def toBytes (fold : Str → Str) (p : PPCGlobalOptimizerPanel) :
    Except ValueError (List UInt8) := do
  let level := p.optimizationlevel
  if ¬ (0 ≤ level ∧ level ≤ 4) then
    throw ⟨"GlobalOptimizer_PPC_optimizationlevel must be in 0..4"⟩
  let optfor ← target fold p.optfor
  let optfor ← byte optfor "GlobalOptimizer_PPC_optfor"
  if ¬ (optfor = 0 ∨ optfor = 1) then
    throw ⟨"GlobalOptimizer_PPC_optfor must be Speed (0) or Size (1)"⟩
  return [0, 1, UInt8.ofNat level.toNat, optfor] ++ List.replicate 8 0

end PPCGlobalOptimizerPanel

/-- `PPCCodeGenPanel`, with the names of the settings shortened by `MWCodeGen_PPC_`. -/
structure PPCCodeGenPanel where
  structalignment : Setting := .int 4
  tracebacktables : Setting := .int 0
  processor : Setting := .int 0
  readonlystrings : Int := 1
  tocdata : Int := 1
  profiler : Int := 0
  fpcontract : Int := 1
  schedule : Int := 1
  peephole : Int := 1
  altivec : Int := 0
  vectortocdata : Int := 0
  poolconst : Int := 0
  volatileasm : Int := 0
  strictIEEEfp : Int := 0
  genfsel : Int := 0
  orderedfpcmp : Int := 0
  altivecMoveBlock : Int := 0
  functionAlign : Int := 4
  largetoc : Int := 0
  linkerpoolsstrings : Int := 0
  deriving DecidableEq

namespace PPCCodeGenPanel

/-- `_ALIGNMENT`. -/
def alignment : List (Str × UInt8) :=
  [("mc68k".toList, 0), ("mac68k".toList, 0), ("mac68k4byte".toList, 1), ("natural".toList, 2),
    ("arraymembers".toList, 3), ("ppc_mw".toList, 4), ("powerpc".toList, 4)]

/-- `_TRACEBACK`. -/
def traceback : List (Str × UInt8) :=
  [("none".toList, 0), ("inline".toList, 1), ("outofline".toList, 2)]

/-- `_PROCESSORS`. -/
def processors : List (Str × UInt8) :=
  [("generic".toList, 0), ("p601".toList, 1), ("p603".toList, 2), ("p603e".toList, 3),
    ("p604".toList, 4), ("p604e".toList, 5), ("p750".toList, 6), ("altivec".toList, 7),
    ("p7400".toList, 8), ("p7450".toList, 9)]

/-- `_FUNCTION_ALIGNMENT`. -/
def functionAlignment : List (Int × UInt8) := [(4, 2), (8, 3), (16, 4), (32, 2)]

/-- The flags with their offsets. -/
def flags (p : PPCCodeGenPanel) : List Flag :=
  [(0x05, "MWCodeGen_PPC_readonlystrings", p.readonlystrings),
    (0x06, "MWCodeGen_PPC_tocdata", p.tocdata),
    (0x07, "MWCodeGen_PPC_profiler", p.profiler),
    (0x08, "MWCodeGen_PPC_fpcontract", p.fpcontract),
    (0x09, "MWCodeGen_PPC_schedule", p.schedule),
    (0x0A, "MWCodeGen_PPC_peephole", p.peephole),
    (0x0C, "MWCodeGen_PPC_altivec", p.altivec),
    (0x0D, "MWCodeGen_PPC_vectortocdata", p.vectortocdata),
    (0x11, "MWCodeGen_PPC_poolconst", p.poolconst),
    (0x12, "MWCodeGen_PPC_volatileasm", p.volatileasm),
    (0x13, "MWCodeGen_PPC_strictIEEEfp", p.strictIEEEfp),
    (0x14, "MWCodeGen_PPC_genfsel", p.genfsel),
    (0x15, "MWCodeGen_PPC_orderedfpcmp", p.orderedfpcmp),
    (0x16, "MWCodeGen_PPC_altivec_move_block", p.altivecMoveBlock),
    (0x19, "MWCodeGen_PPC_largetoc", p.largetoc),
    (0x1A, "MWCodeGen_PPC_linkerpoolsstrings", p.linkerpoolsstrings)]

/-- `PPCCodeGenPanel.to_bytes`. -/
def toBytes (fold : Str → Str) (p : PPCCodeGenPanel) : Except ValueError (List UInt8) := do
  let data := assign (List.replicate 0x22 0) 0 2 (toBE 2 7)
  let structalignment ← categorical fold p.structalignment alignment "structalignment"
  let data := data.set 0x02 structalignment
  let tracebacktables ← categorical fold p.tracebacktables traceback "tracebacktables"
  let data := data.set 0x03 tracebacktables
  let processor ← categorical fold p.processor processors "processor"
  let data := data.set 0x04 processor
  let data ← fillBytes p.flags data
  match functionAlignment.lookup p.functionAlign with
  | some code => return data.set 0x17 code
  | none => throw ⟨s!"unknown function alignment: {p.functionAlign}"⟩

end PPCCodeGenPanel

/-! ## What a record shows -/

namespace Panels

theorem byte_eq_ok {value : Int} {field : String} {b : UInt8} (h : byte value field = .ok b) :
    (b.toNat : Int) = value := by
  unfold byte at h
  by_cases hrange : 0 ≤ value ∧ value ≤ 0xFF
  · rw [if_pos hrange] at h
    cases h
    rw [UInt8.toNat_ofNat', Nat.mod_eq_of_lt (by omega), Int.toNat_of_nonneg hrange.1]
  · rw [if_neg hrange] at h
    cases h

/-- A byte denotes one value only. -/
theorem byte_injective {value value' : Int} {field field' : String} {b : UInt8}
    (h : byte value field = .ok b) (h' : byte value' field' = .ok b) : value = value' :=
  (byte_eq_ok h).symm.trans (byte_eq_ok h')

/-- The record `r` holds the value of the flag at its offset. -/
def Shows (r : List UInt8) (flag : Flag) : Prop :=
  ∃ b, byte flag.2.2 flag.2.1 = .ok b ∧ r[flag.1]? = some b

theorem fillBytes_length {flags : List Flag} {data r : List UInt8}
    (h : fillBytes flags data = .ok r) : r.length = data.length := by
  induction flags generalizing data with
  | nil =>
    cases h
    rfl
  | cons flag flags ih =>
    obtain ⟨b, -, h⟩ := bind_eq_ok h
    rw [ih h, List.length_set]

/-- **Filling in the flags** at different offsets: each of them is there, the rest stays. -/
theorem fillBytes_ok {flags : List Flag} {data r : List UInt8} (h : fillBytes flags data = .ok r)
    (hnodup : (flags.map Prod.fst).Nodup) (hlt : ∀ i ∈ flags.map Prod.fst, i < data.length) :
    (∀ flag ∈ flags, Shows r flag) ∧ ∀ i, i ∉ flags.map Prod.fst → r[i]? = data[i]? := by
  induction flags generalizing data with
  | nil =>
    cases h
    exact ⟨fun _ hf => absurd hf List.not_mem_nil, fun _ _ => rfl⟩
  | cons flag flags ih =>
    obtain ⟨offset, name, value⟩ := flag
    rw [fillBytes] at h
    obtain ⟨b, hb, h⟩ := bind_eq_ok h
    rw [List.map_cons, List.nodup_cons] at hnodup
    rw [List.map_cons, List.forall_mem_cons] at hlt
    obtain ⟨hshows, hrest⟩ := ih h hnodup.2 fun i hi => by
      rw [List.length_set]
      exact hlt.2 i hi
    refine ⟨List.forall_mem_cons.mpr ⟨⟨b, hb, ?_⟩, hshows⟩, fun i hi => ?_⟩
    · rw [hrest offset hnodup.1, List.getElem?_set_self hlt.1]
    · rw [List.map_cons, List.mem_cons, not_or] at hi
      rw [hrest i hi.2, List.getElem?_set_ne (Ne.symm hi.1)]

/-- **A record shows one value** at each offset. -/
theorem flags_eq {r : List UInt8} {flags flags' : List Flag}
    (hsame : flags.map (fun f => (f.1, f.2.1)) = flags'.map fun f => (f.1, f.2.1))
    (h : ∀ flag ∈ flags, Shows r flag) (h' : ∀ flag ∈ flags', Shows r flag) :
    flags = flags' := by
  induction flags generalizing flags' with
  | nil => exact (List.map_eq_nil_iff.mp hsame.symm).symm
  | cons flag flags ih =>
    cases flags' with
    | nil => cases hsame
    | cons flag' flags' =>
      obtain ⟨offset, name, value⟩ := flag
      obtain ⟨offset', name', value'⟩ := flag'
      obtain ⟨heq, hrest⟩ := List.cons.inj hsame
      obtain ⟨rfl, rfl⟩ := Prod.mk.inj heq
      obtain ⟨⟨b, hb, hr⟩, h⟩ := List.forall_mem_cons.mp h
      obtain ⟨⟨b', hb', hr'⟩, h'⟩ := List.forall_mem_cons.mp h'
      have hbyte : b = b' := Option.some.inj (hr.symm.trans hr')
      subst hbyte
      have hvalue : value = value' := byte_injective hb hb'
      rw [hvalue, ih hrest h h']

/-- What a slice assignment inside a record does. -/
theorem assign_ok (data bytes : List UInt8) (start stop : Nat)
    (hstop : start + bytes.length = stop) (h : stop ≤ data.length) :
    (assign data start stop bytes).length = data.length ∧
      Sits (assign data start stop bytes) start bytes ∧
      ∀ i, i < start ∨ stop ≤ i → (assign data start stop bytes)[i]? = data[i]? := by
  subst hstop
  exact ⟨assign_length h, Sits.assign_self h, fun i hi => getElem?_assign h hi⟩

/-- A Pascal string fills its area, and begins with its length and its bytes. -/
theorem pascal_ok {value : Str} {capacity : Nat} {field : String} {bytes : List UInt8}
    (h : pascal value capacity field = .ok bytes) (hcapacity : 0 < capacity) :
    bytes.length = capacity ∧ ∃ raw rest, encodeMacRoman value = some raw ∧
      raw.length ≤ capacity - 1 ∧ bytes = UInt8.ofNat raw.length :: (raw ++ rest) := by
  unfold pascal at h
  cases hraw : encodeMacRoman value with
  | none =>
    rw [hraw] at h
    cases h
  | some raw =>
    rw [hraw] at h
    simp only at h
    by_cases hlong : raw.length > capacity - 1
    · rw [if_pos hlong] at h
      cases h
    rw [if_neg hlong] at h
    cases h
    refine ⟨?_, raw, _, rfl, by omega, rfl⟩
    rw [List.length_append, List.length_cons, List.length_replicate]
    omega

/-- A Pascal string is one string only. -/
theorem pascal_injective {value value' : Str} {r raw raw' rest rest' : List UInt8} {off : Nat}
    (h : encodeMacRoman value = some raw) (h' : encodeMacRoman value' = some raw')
    (hlen : raw.length < 256) (hlen' : raw'.length < 256)
    (hr : Sits r off (UInt8.ofNat raw.length :: (raw ++ rest)))
    (hr' : Sits r off (UInt8.ofNat raw'.length :: (raw' ++ rest'))) : value = value' := by
  have hfirst : UInt8.ofNat raw.length = UInt8.ofNat raw'.length :=
    (hr.getD_eq 0).symm.trans (hr'.getD_eq 0)
  have hlength : raw.length = raw'.length := by
    have heq := congrArg UInt8.toNat hfirst
    rwa [UInt8.toNat_ofNat', UInt8.toNat_ofNat', Nat.mod_eq_of_lt hlen,
      Nat.mod_eq_of_lt hlen'] at heq
  have hraw : Sits r (off + 1) raw :=
    Sits.left (Sits.right (a := [UInt8.ofNat raw.length]) hr)
  have hraw' : Sits r (off + 1) raw' :=
    Sits.left (Sits.right (a := [UInt8.ofNat raw'.length]) hr')
  have hsame : raw = raw' :=
    hraw.slice_eq.symm.trans (hraw'.slice_eq_of_length hlength.symm)
  rw [← decodeMacRoman_encode h, ← decodeMacRoman_encode h', hsame]

end Panels

/-! ## The records -/

namespace CCompilerPanel

/-- The offsets of the flags. -/
def offsets : List Nat :=
  [0x02, 0x03, 0x04, 0x05, 0x06, 0x07, 0x08, 0x29, 0x2A, 0x2B, 0x2C, 0x2D, 0x2E, 0x2F, 0x30, 0x31,
    0x32, 0x33, 0x34, 0x3A, 0x3B, 0x3C, 0x3D, 0x3E, 0x3F]

theorem flags_offsets (p : CCompilerPanel) : p.flags.map Prod.fst = offsets := rfl

/-- The offsets differ, and lie outside the inline level and the two areas of the prefix. -/
theorem offsets_apart : offsets.Nodup ∧ ∀ i ∈ offsets, i < 0x140 ∧ (i < 0x38 ∨ 0x3A ≤ i) ∧
    (i < 0x40 ∨ 0x140 ≤ i) ∧ (i < 0x09 ∨ 0x29 ≤ i) := by
  decide

/-- What a record holds. -/
structure Record (p : CCompilerPanel) (r : List UInt8) : Prop where
  length : r.length = 0x140
  flags : ∀ flag ∈ p.flags, Shows r flag
  inlineRange : -0x8000 ≤ p.inlinelevel ∧ p.inlinelevel ≤ 0x7FFF
  inlinelevel : Sits r 0x38 (toBE 2 (p.inlinelevel % 2 ^ 16).toNat)
  prefixname : ∃ raw rest, encodeMacRoman p.prefixname = some raw ∧ raw.length < 256 ∧
    Sits r 0x40 (UInt8.ofNat raw.length :: (raw ++ rest))

/-- Changing bytes that none of its parts needs keeps a record. -/
theorem Record.congr {p : CCompilerPanel} {r r' : List UInt8} (h : p.Record r)
    (hlen : r'.length = r.length) (hsame : ∀ i, i < 0x09 ∨ 0x29 ≤ i → r'[i]? = r[i]?) :
    p.Record r' where
  length := by rw [hlen, h.length]
  flags flag hflag := by
    obtain ⟨b, hb, hr⟩ := h.flags flag hflag
    have hmem : flag.1 ∈ offsets := p.flags_offsets ▸ List.mem_map_of_mem hflag
    exact ⟨b, hb, by rw [hsame flag.1 (offsets_apart.2 _ hmem).2.2.2, hr]⟩
  inlineRange := h.inlineRange
  inlinelevel := h.inlinelevel.congr fun i hi _ => hsame i (by omega)
  prefixname := by
    obtain ⟨raw, rest, hraw, hlen, hsits⟩ := h.prefixname
    exact ⟨raw, rest, hraw, hlen, hsits.congr fun i hi _ => hsame i (by omega)⟩

/-- **The record** of a panel. -/
theorem toBytes_record {p : CCompilerPanel} {r : List UInt8} (h : p.toBytes = .ok r) :
    p.Record r := by
  unfold toBytes at h
  obtain ⟨filled, hfilled, h⟩ := bind_eq_ok h
  have hzeros : (List.replicate 0x140 (0 : UInt8)).length = 0x140 := List.length_replicate
  obtain ⟨hlen₀, -, -⟩ := assign_ok (List.replicate 0x140 0) (toBE 2 16) 0 2
    rfl (by omega)
  have hlen₁ := fillBytes_length hfilled
  obtain ⟨hshows, -⟩ := fillBytes_ok hfilled (p.flags_offsets ▸ offsets_apart.1)
    fun i hi => by
      have := (offsets_apart.2 i (p.flags_offsets ▸ hi)).1
      omega
  by_cases hrange : ¬ (-0x8000 ≤ p.inlinelevel ∧ p.inlinelevel ≤ 0x7FFF)
  · simp only [if_pos hrange] at h
    cases h
  simp only [if_neg hrange] at h
  obtain ⟨prefix_, hprefix, h⟩ := bind_eq_ok h
  obtain ⟨hlenp, raw, rest, hraw, hshort, rfl⟩ := pascal_ok hprefix (by decide)
  obtain ⟨hlen₂, hinline, hkept₂⟩ := assign_ok filled (toBE 2 (p.inlinelevel % 2 ^ 16).toNat)
    0x38 0x3A rfl (by omega)
  obtain ⟨hlen₃, hsits, hkept₃⟩ := assign_ok
    (assign filled 0x38 0x3A (toBE 2 (p.inlinelevel % 2 ^ 16).toNat)) _
    0x40 0x140 (by rw [hlenp]) (by omega)
  have hrecord : p.Record (assign (assign filled 0x38 0x3A (toBE 2 (p.inlinelevel % 2 ^ 16).toNat))
      0x40 0x140 (UInt8.ofNat raw.length :: (raw ++ rest))) := by
    refine ⟨by omega, fun flag hflag => ?_, not_not.mp hrange, ?_, raw, rest, hraw, by omega, hsits⟩
    · obtain ⟨b, hb, hr⟩ := hshows flag hflag
      have hmem : flag.1 ∈ offsets := p.flags_offsets ▸ List.mem_map_of_mem hflag
      obtain ⟨-, h₂, h₃, -⟩ := offsets_apart.2 _ hmem
      exact ⟨b, hb, by rw [hkept₃ _ h₃, hkept₂ _ h₂, hr]⟩
    · exact hinline.congr fun i _ hi => hkept₃ i (by
        rw [toBE_length] at hi
        omega)
  by_cases hempty : p.prefixname ≠ []
  · rw [if_pos hempty] at h
    obtain ⟨legacy, hlegacy, h⟩ := bind_eq_ok h
    cases h
    obtain ⟨hlenl, -⟩ := pascal_ok hlegacy (by decide)
    obtain ⟨hlen₄, -, hkept₄⟩ := assign_ok
      (assign (assign filled 0x38 0x3A (toBE 2 (p.inlinelevel % 2 ^ 16).toNat)) 0x40 0x140
        (UInt8.ofNat raw.length :: (raw ++ rest))) legacy 0x09 0x29
      (by rw [hlenl]) (by omega)
    exact hrecord.congr hlen₄ hkept₄
  · rw [if_neg hempty] at h
    cases h
    exact hrecord

/-- **A record comes from one panel.** -/
theorem Record.injective {p q : CCompilerPanel} {r : List UInt8} (hp : p.Record r)
    (hq : q.Record r) : p = q := by
  have hflags : p.flags = q.flags := flags_eq rfl hp.flags hq.flags
  have hinline : p.inlinelevel = q.inlinelevel := by
    have hbytes : toBE 2 (p.inlinelevel % 2 ^ 16).toNat = toBE 2 (q.inlinelevel % 2 ^ 16).toNat :=
      hp.inlinelevel.slice_eq.symm.trans
        (hq.inlinelevel.slice_eq_of_length (by rw [toBE_length, toBE_length]))
    have hword := congrArg beNat hbytes
    rw [beNat_toBE_of_lt (by omega), beNat_toBE_of_lt (by omega)] at hword
    rw [← signed_eq (w := 16) (by decide) hp.inlineRange.1 (by have := hp.inlineRange.2; omega),
      ← signed_eq (w := 16) (by decide) hq.inlineRange.1 (by have := hq.inlineRange.2; omega),
      hword]
  have hname : p.prefixname = q.prefixname := by
    obtain ⟨raw, rest, hraw, hlen, hsits⟩ := hp.prefixname
    obtain ⟨raw', rest', hraw', hlen', hsits'⟩ := hq.prefixname
    exact pascal_injective hraw hraw' hlen hlen' hsits hsits'
  cases p
  cases q
  simp only [CCompilerPanel.flags, List.cons.injEq, Prod.mk.injEq, true_and] at hflags
  simp only at hinline hname
  simp only [hflags, hinline, hname]

end CCompilerPanel

namespace CWarningsPanel

/-- Bytes in a row come from one list of values. -/
theorem mapM_byte_injective {fields fields' : List (String × Int)} {bytes : List UInt8}
    (hnames : fields.map Prod.fst = fields'.map Prod.fst)
    (h : (fields.mapM fun field => byte field.2 field.1) = .ok bytes)
    (h' : (fields'.mapM fun field => byte field.2 field.1) = .ok bytes) :
    fields = fields' ∧ bytes.length = fields.length := by
  induction fields generalizing fields' bytes with
  | nil =>
    cases h
    exact ⟨(List.map_eq_nil_iff.mp hnames.symm).symm, rfl⟩
  | cons field fields ih =>
    cases fields' with
    | nil => cases hnames
    | cons field' fields' =>
      obtain ⟨hname, hnames⟩ := List.cons.inj hnames
      rw [List.mapM_cons] at h h'
      obtain ⟨b, hb, h⟩ := bind_eq_ok h
      obtain ⟨rest, hrest, h⟩ := bind_eq_ok h
      obtain ⟨b', hb', h'⟩ := bind_eq_ok h'
      obtain ⟨rest', hrest', h'⟩ := bind_eq_ok h'
      cases h
      cases h'
      obtain ⟨heq, hlen⟩ := ih hnames hrest hrest'
      have hvalue : field = field' := Prod.ext hname (byte_injective hb hb')
      exact ⟨by rw [hvalue, heq], by rw [List.length_cons, List.length_cons, hlen]⟩

theorem toBytes_length {p : CWarningsPanel} {r : List UInt8} (h : p.toBytes = .ok r) :
    r.length = 14 := by
  obtain ⟨bytes, hbytes, h⟩ := bind_eq_ok h
  cases h
  have hlen := (mapM_byte_injective rfl hbytes hbytes).2
  rw [List.length_append, hlen]
  rfl

/-- **A record comes from one panel.** -/
theorem toBytes_injective {p q : CWarningsPanel} {r : List UInt8} (hp : p.toBytes = .ok r)
    (hq : q.toBytes = .ok r) : p = q := by
  obtain ⟨bytes, hbytes, hp⟩ := bind_eq_ok hp
  obtain ⟨bytes', hbytes', hq⟩ := bind_eq_ok hq
  cases hp
  have hsame : bytes' = bytes := List.append_cancel_left (Except.ok.inj hq)
  subst hsame
  have hfields := (mapM_byte_injective (by rfl) hbytes hbytes').1
  cases p
  cases q
  simp only [fields, List.cons.injEq, Prod.mk.injEq, true_and] at hfields
  simp only [hfields]

end CWarningsPanel

namespace PPCGlobalOptimizerPanel

variable {fold : Str → Str}

theorem toBytes_length {p : PPCGlobalOptimizerPanel} {r : List UInt8}
    (h : p.toBytes fold = .ok r) : r.length = 12 := by
  unfold toBytes at h
  by_cases hlevel : ¬ (0 ≤ p.optimizationlevel ∧ p.optimizationlevel ≤ 4)
  · simp only [if_pos hlevel] at h
    cases h
  simp only [if_neg hlevel] at h
  obtain ⟨optfor, -, h⟩ := bind_eq_ok h
  obtain ⟨b, -, h⟩ := bind_eq_ok h
  by_cases hrange : ¬ (b = 0 ∨ b = 1)
  · rw [if_pos hrange] at h
    cases h
  rw [if_neg hrange] at h
  cases h
  rfl

/-- The record of a panel whose target is given by its code. -/
theorem toBytes_record {p : PPCGlobalOptimizerPanel} {code : Int} {r : List UInt8}
    (hcode : p.optfor = .int code) (h : p.toBytes fold = .ok r) :
    (0 ≤ p.optimizationlevel ∧ p.optimizationlevel ≤ 4) ∧
      ∃ b, byte code "GlobalOptimizer_PPC_optfor" = .ok b ∧
        r = [0, 1, UInt8.ofNat p.optimizationlevel.toNat, b] ++ List.replicate 8 0 := by
  unfold toBytes at h
  by_cases hlevel : ¬ (0 ≤ p.optimizationlevel ∧ p.optimizationlevel ≤ 4)
  · simp only [if_pos hlevel] at h
    cases h
  simp only [if_neg hlevel, hcode] at h
  obtain ⟨b, hb, h⟩ := bind_eq_ok (x := byte code "GlobalOptimizer_PPC_optfor") h
  by_cases hrange : ¬ (b = 0 ∨ b = 1)
  · rw [if_pos hrange] at h
    cases h
  rw [if_neg hrange] at h
  cases h
  exact ⟨not_not.mp hlevel, b, hb, rfl⟩

/-- **A record comes from one panel.** -/
theorem toBytes_injective {p q : PPCGlobalOptimizerPanel} {code code' : Int} {r : List UInt8}
    (hcode : p.optfor = .int code) (hcode' : q.optfor = .int code')
    (hp : p.toBytes fold = .ok r) (hq : q.toBytes fold = .ok r) : p = q := by
  obtain ⟨hlevel, b, hb, rfl⟩ := toBytes_record hcode hp
  obtain ⟨hlevel', b', hb', heq⟩ := toBytes_record hcode' hq
  simp only [List.cons_append, List.nil_append, List.cons.injEq, true_and, and_true] at heq
  obtain ⟨hbyte, rfl⟩ := heq
  have hsame : p.optimizationlevel = q.optimizationlevel := by
    have hnat := congrArg UInt8.toNat hbyte
    rw [UInt8.toNat_ofNat', UInt8.toNat_ofNat', Nat.mod_eq_of_lt (by omega),
      Nat.mod_eq_of_lt (by omega)] at hnat
    omega
  cases p
  cases q
  simp only at hsame hcode hcode'
  rw [hsame, hcode, hcode', byte_injective hb hb']

end PPCGlobalOptimizerPanel

namespace PPCCodeGenPanel

variable {fold : Str → Str}

/-- The categorical settings are given by their codes. -/
structure Numeric (p : PPCCodeGenPanel) (codes : Int × Int × Int) : Prop where
  structalignment : p.structalignment = .int codes.1
  tracebacktables : p.tracebacktables = .int codes.2.1
  processor : p.processor = .int codes.2.2

/-- All bytes but the function alignment, as flags. -/
def allFlags (p : PPCCodeGenPanel) (codes : Int × Int × Int) : List Flag :=
  (0x02, "structalignment", codes.1) :: (0x03, "tracebacktables", codes.2.1) ::
    (0x04, "processor", codes.2.2) :: p.flags

/-- The offsets of the flags. -/
def offsets : List Nat :=
  [0x02, 0x03, 0x04, 0x05, 0x06, 0x07, 0x08, 0x09, 0x0A, 0x0C, 0x0D, 0x11, 0x12, 0x13, 0x14, 0x15,
    0x16, 0x19, 0x1A]

theorem allFlags_offsets (p : PPCCodeGenPanel) (codes : Int × Int × Int) :
    (p.allFlags codes).map Prod.fst = offsets := rfl

theorem offsets_apart : offsets.Nodup ∧ ∀ i ∈ offsets, i < 0x22 ∧ i ≠ 0x17 := by
  decide

theorem toBytes_eq {p : PPCCodeGenPanel} {codes : Int × Int × Int} (h : p.Numeric codes) :
    p.toBytes fold =
      fillBytes (p.allFlags codes) (assign (List.replicate 0x22 0) 0 2 (toBE 2 7)) >>= fun data =>
        match functionAlignment.lookup p.functionAlign with
        | some code => return data.set 0x17 code
        | none => throw ⟨s!"unknown function alignment: {p.functionAlign}"⟩ := by
  simp only [toBytes, h.structalignment, h.tracebacktables, h.processor, categorical, allFlags,
    fillBytes, bind_assoc]

theorem toBytes_length {p : PPCCodeGenPanel} {r : List UInt8} (h : p.toBytes fold = .ok r) :
    r.length = 0x22 := by
  unfold toBytes at h
  obtain ⟨structalignment, -, h⟩ := bind_eq_ok h
  obtain ⟨tracebacktables, -, h⟩ := bind_eq_ok h
  obtain ⟨processor, -, h⟩ := bind_eq_ok h
  obtain ⟨filled, hfilled, h⟩ := bind_eq_ok h
  have hlen := fillBytes_length hfilled
  rw [List.length_set, List.length_set, List.length_set] at hlen
  cases hlookup : functionAlignment.lookup p.functionAlign with
  | none =>
    rw [hlookup] at h
    cases h
  | some code =>
    rw [hlookup] at h
    cases h
    rw [List.length_set, hlen]
    rfl

/-- **What a record shows** of a panel. -/
theorem toBytes_record {p : PPCCodeGenPanel} {codes : Int × Int × Int} {r : List UInt8}
    (hcodes : p.Numeric codes) (h : p.toBytes fold = .ok r) :
    (∀ flag ∈ p.allFlags codes, Shows r flag) ∧
      ∃ code, functionAlignment.lookup p.functionAlign = some code ∧ r[0x17]? = some code := by
  rw [toBytes_eq hcodes] at h
  obtain ⟨filled, hfilled, h⟩ := bind_eq_ok h
  have hzeros : (assign (List.replicate 0x22 0) 0 2 (toBE 2 7)).length = 0x22 := rfl
  have hlen := fillBytes_length hfilled
  obtain ⟨hshows, -⟩ := fillBytes_ok hfilled (p.allFlags_offsets codes ▸ offsets_apart.1)
    fun i hi => hzeros ▸ (offsets_apart.2 i (p.allFlags_offsets codes ▸ hi)).1
  cases hlookup : functionAlignment.lookup p.functionAlign with
  | none =>
    rw [hlookup] at h
    cases h
  | some code =>
    rw [hlookup] at h
    cases h
    refine ⟨fun flag hflag => ?_, code, rfl, ?_⟩
    · obtain ⟨b, hb, hr⟩ := hshows flag hflag
      have hmem : flag.1 ∈ offsets := p.allFlags_offsets codes ▸ List.mem_map_of_mem hflag
      exact ⟨b, hb, by rw [List.getElem?_set_ne (offsets_apart.2 _ hmem).2.symm, hr]⟩
    · rw [List.getElem?_set_self (by omega)]

/-- The function alignments that share a code. -/
theorem functionAlignment_injective {x y : Int} {code : UInt8}
    (hx : functionAlignment.lookup x = some code) (hy : functionAlignment.lookup y = some code) :
    x = y ∨ x = 4 ∧ y = 32 ∨ x = 32 ∧ y = 4 := by
  have hmem : ∀ z, functionAlignment.lookup z = some code → (z, code) ∈ functionAlignment :=
    fun z => (Dict.lookup_eq_some_iff (by decide)).mp
  have hx := hmem x hx
  have hy := hmem y hy
  simp only [functionAlignment, List.mem_cons, Prod.mk.injEq, List.not_mem_nil, or_false] at hx hy
  rcases hx with ⟨rfl, rfl⟩ | ⟨rfl, rfl⟩ | ⟨rfl, rfl⟩ | ⟨rfl, rfl⟩
  · rcases hy with ⟨rfl, -⟩ | ⟨-, h⟩ | ⟨-, h⟩ | ⟨rfl, -⟩
    · exact .inl rfl
    · cases h
    · cases h
    · exact .inr (.inl ⟨rfl, rfl⟩)
  · rcases hy with ⟨-, h⟩ | ⟨rfl, -⟩ | ⟨-, h⟩ | ⟨-, h⟩
    · cases h
    · exact .inl rfl
    · cases h
    · cases h
  · rcases hy with ⟨-, h⟩ | ⟨-, h⟩ | ⟨rfl, -⟩ | ⟨-, h⟩
    · cases h
    · cases h
    · exact .inl rfl
    · cases h
  · rcases hy with ⟨rfl, -⟩ | ⟨-, h⟩ | ⟨-, h⟩ | ⟨rfl, -⟩
    · exact .inr (.inr ⟨rfl, rfl⟩)
    · cases h
    · cases h
    · exact .inl rfl

/-- Panels that differ only in that one aligns functions to 4 bytes and the other to 32. -/
def Confused (p q : PPCCodeGenPanel) : Prop :=
  (p.functionAlign = 4 ∧ q.functionAlign = 32 ∨ p.functionAlign = 32 ∧ q.functionAlign = 4) ∧
    q = { p with functionAlign := q.functionAlign }

/-- **A record comes from one panel**, or from two that are confused. -/
theorem toBytes_injective {p q : PPCCodeGenPanel} {codes codes' : Int × Int × Int}
    {r : List UInt8} (hcodes : p.Numeric codes) (hcodes' : q.Numeric codes')
    (hp : p.toBytes fold = .ok r) (hq : q.toBytes fold = .ok r) : p = q ∨ Confused p q := by
  obtain ⟨hshows, code, hcode, hr⟩ := toBytes_record hcodes hp
  obtain ⟨hshows', code', hcode', hr'⟩ := toBytes_record hcodes' hq
  have hflags : p.allFlags codes = q.allFlags codes' := flags_eq rfl hshows hshows'
  have halign := functionAlignment_injective hcode
    (hcode'.trans (hr'.symm.trans hr))
  have hrest : q = { p with functionAlign := q.functionAlign } := by
    obtain ⟨h₁, h₂, h₃⟩ := hcodes
    obtain ⟨h₁', h₂', h₃'⟩ := hcodes'
    cases p
    cases q
    simp only [allFlags, flags, List.cons.injEq, Prod.mk.injEq, true_and] at hflags
    simp only at h₁ h₂ h₃ h₁' h₂' h₃'
    simp only [h₁, h₂, h₃, h₁', h₂', h₃', hflags]
  rcases halign with halign | halign
  · left
    rw [hrest, ← halign]
  · exact .inr ⟨halign, hrest⟩

/-- Confused panels have the same record. -/
theorem Confused.toBytes_eq {p q : PPCCodeGenPanel} (h : Confused p q) :
    q.toBytes fold = p.toBytes fold := by
  obtain ⟨halign, hrest⟩ := h
  have hcodes : functionAlignment.lookup p.functionAlign = some 2 ∧
      functionAlignment.lookup q.functionAlign = some 2 := by
    rcases halign with ⟨hp, hq⟩ | ⟨hp, hq⟩
    · rw [hp, hq]
      exact ⟨rfl, rfl⟩
    · rw [hp, hq]
      exact ⟨rfl, rfl⟩
  generalize q.functionAlign = y at hcodes hrest
  subst hrest
  simp only [toBytes, flags, hcodes.1, hcodes.2]

end PPCCodeGenPanel

/-- The panels of a compilation. -/
structure CompilerPanels where
  compiler : CCompilerPanel := {}
  warnings : CWarningsPanel := {}
  optimizer : PPCGlobalOptimizerPanel := {}
  codeGen : PPCCodeGenPanel := {}
  deriving DecidableEq

namespace CompilerPanels

/-- `defaults`. -/
def defaults : CompilerPanels := {}

end CompilerPanels

/-! ## The four records together -/

section Records

variable (fold : Str → Str)

/-- **Equal records come from equal panels**, and have the length of their panel; for the code
generator, unless one panel aligns functions to 4 bytes and the other, otherwise equal, to 32. -/
theorem records_equal_iff :
    (∀ p q : CCompilerPanel, ∀ r r', p.toBytes = .ok r → q.toBytes = .ok r' →
      r.length = 0x140 ∧ (r = r' → p = q)) ∧
    (∀ p q : CWarningsPanel, ∀ r r', p.toBytes = .ok r → q.toBytes = .ok r' →
      r.length = 14 ∧ (r = r' → p = q)) ∧
    (∀ p q : PPCGlobalOptimizerPanel, ∀ r r', p.toBytes fold = .ok r → q.toBytes fold = .ok r' →
      r.length = 12 ∧ ∀ code code', p.optfor = .int code → q.optfor = .int code' →
        r = r' → p = q) ∧
    ∀ p q : PPCCodeGenPanel, ∀ r r', p.toBytes fold = .ok r → q.toBytes fold = .ok r' →
      r.length = 0x22 ∧ ∀ codes codes', p.Numeric codes → q.Numeric codes' →
        ((r = r' → p = q) ↔ ¬ PPCCodeGenPanel.Confused p q) := by
  refine ⟨fun p q r r' hp hq => ⟨(CCompilerPanel.toBytes_record hp).length, ?_⟩,
    fun p q r r' hp hq => ⟨CWarningsPanel.toBytes_length hp, ?_⟩,
    fun p q r r' hp hq => ⟨PPCGlobalOptimizerPanel.toBytes_length hp, ?_⟩,
    fun p q r r' hp hq => ⟨PPCCodeGenPanel.toBytes_length hp, ?_⟩⟩
  · rintro rfl
    exact (CCompilerPanel.toBytes_record hp).injective (CCompilerPanel.toBytes_record hq)
  · rintro rfl
    exact CWarningsPanel.toBytes_injective hp hq
  · rintro code code' hcode hcode' rfl
    exact PPCGlobalOptimizerPanel.toBytes_injective hcode hcode' hp hq
  · intro codes codes' hcodes hcodes'
    constructor
    · intro hinj hconfused
      have hsame : r = r' := Except.ok.inj (hp.symm.trans (hconfused.toBytes_eq.symm.trans hq))
      have halign := hconfused.1
      rw [hinj hsame] at halign
      omega
    · rintro hnot rfl
      exact (PPCCodeGenPanel.toBytes_injective hcodes hcodes' hp hq).resolve_right hnot

/-- Two code generator panels that differ in one setting and not in their records. -/
theorem confused_records :
    ∃ r, PPCCodeGenPanel.toBytes id { functionAlign := 4 } = .ok r ∧
      PPCCodeGenPanel.toBytes id { functionAlign := 32 } = .ok r ∧
      ({ functionAlign := 4 } : PPCCodeGenPanel) ≠ { functionAlign := 32 } := by
  refine ⟨_, rfl, rfl, fun h => ?_⟩
  have halign := congrArg PPCCodeGenPanel.functionAlign h
  simp only at halign
  omega

end Records

end Cwhost
