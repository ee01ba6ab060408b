import Cwhost.Lib.Scanner
import Cwhost.Panels

/-!
# The panel flags of the command line (`cli/flags.py`)

`from_flags` reads the flags that set the panels and hands everything else back. Each `if` of its
loop is a row of `table`: the spellings, and what the flag takes and does. A row belongs to the
panel it sets; the loop is `Lib.scan`.
-/

namespace Cwhost

open Lib Panels

namespace Cli

/-- What the module asks of Python's texts: `str.casefold`, and `int(text)`. -/
structure Texts where
  fold : Str → Str
  int : Str → Except ValueError Int

/-- The texts where they are ASCII. -/
def asciiTexts : Texts where
  fold := List.map Char.toLower
  int text :=
    if text ≠ [] ∧ text.all Char.isDigit then
      return text.foldl (fun n c => 10 * n + (c.toNat - '0'.toNat : Nat)) 0
    else throw ⟨s!"invalid literal for int() with base 10: {pyRepr text}"⟩

/-! ## Operands -/

/-- `value in {…}`. -/
def oneOf (value : Str) (names : List String) : Bool :=
  names.any fun name => name.toList = value

/-- `_onoff`. -/
def onoff (py : Texts) (value flag : Str) : Except ValueError Int :=
  let value := py.fold value
  if oneOf value ["on", "yes", "true", "1"] then return 1
  else if oneOf value ["off", "no", "false", "0"] then return 0
  else throw ⟨s!"{String.ofList flag} expects on|off, got {pyRepr value}"⟩

/-- `int(condition)`. -/
def flagged (condition : Bool) : Int := if condition then 1 else 0

/-- A flag with an operand; what `_need` says where there is none. -/
def needing {σ : Type} (flag : Str) (act : Str → Except ValueError (σ → σ)) :
    Takes ValueError σ Str :=
  .operand ⟨s!"{String.ofList flag} requires an operand"⟩ act

/-- A flag with an operand that is on or off. -/
def switch {σ : Type} (py : Texts) (flag : Str) (set : Int → σ → σ) : Takes ValueError σ Str :=
  needing flag fun value => set <$> onoff py value flag

/-- A flag without an operand. -/
def sets {σ : Type} (set : σ → σ) : Takes ValueError σ Str := .alone (return set)

/-- `value.split("=", 1)[1]`. -/
def afterEquals (value : Str) : Str := (value.dropWhile fun c => c ≠ '=').drop 1

/-! ## Warnings -/

/-- The fields of the warnings panel. -/
inductive Warning
  | illpragma | emptydecl | possunwant | unusedvar | unusedarg | extracomma | pedantic
  | warningerrors | hidevirtual | implicitconv | notinlined | structclass
  deriving DecidableEq, Repr

/-- `getattr(panel, field)`. -/
def Warning.get (p : CWarningsPanel) : Warning → Int
  | illpragma => p.warnIllpragma
  | emptydecl => p.warnEmptydecl
  | possunwant => p.warnPossunwant
  | unusedvar => p.warnUnusedvar
  | unusedarg => p.warnUnusedarg
  | extracomma => p.warnExtracomma
  | pedantic => p.pedantic
  | warningerrors => p.warningerrors
  | hidevirtual => p.warnHidevirtual
  | implicitconv => p.warnImplicitconv
  | notinlined => p.warnNotinlined
  | structclass => p.warnStructclass

/-- `setattr(panel, field, value)`. -/
def Warning.set (value : Int) (p : CWarningsPanel) : Warning → CWarningsPanel
  | illpragma => { p with warnIllpragma := value }
  | emptydecl => { p with warnEmptydecl := value }
  | possunwant => { p with warnPossunwant := value }
  | unusedvar => { p with warnUnusedvar := value }
  | unusedarg => { p with warnUnusedarg := value }
  | extracomma => { p with warnExtracomma := value }
  | pedantic => { p with pedantic := value }
  | warningerrors => { p with warningerrors := value }
  | hidevirtual => { p with warnHidevirtual := value }
  | implicitconv => { p with warnImplicitconv := value }
  | notinlined => { p with warnNotinlined := value }
  | structclass => { p with warnStructclass := value }

/-- `aliases`. -/
def aliases : List (Str × Warning) :=
  [("illpragma".toList, .illpragma), ("illpragmas".toList, .illpragma),
    ("pragmas".toList, .illpragma), ("emptydecl".toList, .emptydecl),
    ("possible".toList, .possunwant), ("possunwant".toList, .possunwant),
    ("unwanted".toList, .possunwant), ("unusedvar".toList, .unusedvar),
    ("unusedarg".toList, .unusedarg), ("extracomma".toList, .extracomma),
    ("comma".toList, .extracomma), ("pedantic".toList, .pedantic),
    ("extended".toList, .pedantic), ("iserror".toList, .warningerrors),
    ("error".toList, .warningerrors), ("hidevirtual".toList, .hidevirtual),
    ("hiddenvirtual".toList, .hidevirtual), ("implicitconv".toList, .implicitconv),
    ("notinlined".toList, .notinlined), ("structclass".toList, .structclass)]

/-- `_set_warning`. -/
def setWarning (py : Texts) (name : Str) (value : Int) :
    Except ValueError (CWarningsPanel → CWarningsPanel) :=
  match aliases.lookup (py.fold name) with
  | some field => return fun w => field.set value w
  | none => throw ⟨s!"unknown warning option: {pyRepr name}"⟩

/-- `for name in names: _set_warning(w, name, 1)`. -/
def setWarnings (py : Texts) : List String → Except ValueError (CWarningsPanel → CWarningsPanel)
  | [] => return id
  | name :: names => do
    let first ← setWarning py name.toList 1
    let others ← setWarnings py names
    return others ∘ first

/-- `-w`. -/
def warningOption (py : Texts) (value : Str) :
    Except ValueError (CWarningsPanel → CWarningsPanel) :=
  let negative := "no".toList.isPrefixOf (py.fold value)
  let name := if negative then value.drop 2 else value
  setWarning py name (flagged !negative)

/-! ## Compiler options -/

/-- The language. -/
def dialectOption (py : Texts) (value : Str) :
    Except ValueError (CCompilerPanel → CCompilerPanel) :=
  let value := py.fold value
  let set (cplusplus ecplusplus objectiveC c99 : Int) (c : CCompilerPanel) : CCompilerPanel :=
    { c with
      cplusplus := cplusplus, ecplusplus := ecplusplus, objectiveC := objectiveC, c99 := c99 }
  if oneOf value ["c++", "cpp", "cxx"] then return set 1 0 0 0
  else if oneOf value ["c", "ansi-c"] then return set 0 0 0 0
  else if oneOf value ["ec++", "ecpp"] then return set 1 1 0 0
  else if oneOf value ["objc", "objective-c", "objective_c"] then return set 0 0 1 0
  else if oneOf value ["c99"] then return set 0 0 0 1
  else throw ⟨s!"unknown dialect: {pyRepr value}"⟩

/-- `-flag`. -/
def pragmaOption (py : Texts) (value : Str) :
    Except ValueError (CCompilerPanel → CCompilerPanel) :=
  let negative := "no-".toList.isPrefixOf (py.fold value)
  let name := if negative then value.drop 3 else value
  let on := flagged !negative
  let pragma := py.fold name
  if oneOf pragma ["arm_conform"] then return fun c => { c with arm := on }
  else if oneOf pragma ["require_prototypes"] then return fun c => { c with checkprotos := on }
  else if oneOf pragma ["ansi_strict"] then return fun c => { c with ansistrict := on }
  else if oneOf pragma ["mpwc_newline"] then return fun c => { c with mpwcnewline := on }
  else throw ⟨s!"unknown compiler pragma: {pyRepr name}"⟩

/-- `-char`. -/
def charOption (py : Texts) (value : Str) :
    Except ValueError (CCompilerPanel → CCompilerPanel) :=
  let value := py.fold value
  if ¬ oneOf value ["signed", "unsigned"] then throw ⟨"-char expects signed|unsigned"⟩
  else return fun c => { c with unsignedchars := flagged (oneOf value ["unsigned"]) }

/-- `-enum`. -/
def enumOption (py : Texts) (value : Str) :
    Except ValueError (CCompilerPanel → CCompilerPanel) :=
  let value := py.fold value
  if ¬ oneOf value ["int", "min"] then throw ⟨"-enum expects int|min"⟩
  else return fun c => { c with enumsalwaysint := flagged (oneOf value ["int"]) }

/-- `-ansi`. -/
def ansiOption (py : Texts) (flag value : Str) :
    Except ValueError (CCompilerPanel → CCompilerPanel) := do
  let enabled ← if ¬ oneOf value ["strict"] then onoff py value flag else pure 1
  return fun c =>
    { c with onlystdkeywords := enabled, enumsalwaysint := enabled, ansistrict := enabled }

/-- `-strings`. -/
def stringsOption (py : Texts) (value : Str) :
    Except ValueError (CCompilerPanel → CCompilerPanel) :=
  let value := py.fold value
  if ¬ oneOf value ["noreuse", "reuse", "pool", "nopool"] then
    throw ⟨"-strings expects noreuse|reuse|pool|nopool"⟩
  else if oneOf value ["noreuse", "reuse"] then
    return fun c => { c with dontreusestrings := flagged (oneOf value ["noreuse"]) }
  else return fun c => { c with poolstrings := flagged (oneOf value ["pool"]) }

/-- `-inline`. -/
def inlineOption (py : Texts) (value : Str) :
    Except ValueError (CCompilerPanel → CCompilerPanel) :=
  let value := py.fold value
  if "level=".toList.isPrefixOf value then do
    let level ← py.int (afterEquals value)
    return fun c => { c with inlinelevel := level, dontinline := 0 }
  else if oneOf value ["none", "off"] then
    return fun c => { c with dontinline := 1, autoinline := 0 }
  else if oneOf value ["auto", "noauto"] then
    return fun c => { c with dontinline := 0, autoinline := flagged (oneOf value ["auto"]) }
  else if oneOf value ["deferred", "defer"] then return fun c => { c with deferCodegen := 1 }
  else if oneOf value ["bottomup", "nobottomup", "no-bottomup"] then
    return fun c => { c with bottomupinline := flagged (oneOf value ["bottomup"]) }
  else throw ⟨s!"unknown -inline option: {pyRepr value}"⟩

/-! ## Optimizer and code generator options -/

/-- `-opt`. -/
def optOption (py : Texts) (value : Str) :
    Except ValueError (PPCGlobalOptimizerPanel → PPCGlobalOptimizerPanel) :=
  let value := py.fold value
  if "level".toList.isPrefixOf value then do
    let raw := if '=' ∈ value then afterEquals value else value.drop 5
    let level ← py.int raw
    return fun o => { o with optimizationlevel := level }
  else if oneOf value ["off", "none"] then return fun o => { o with optimizationlevel := 0 }
  else if oneOf value ["on"] then return fun o => { o with optimizationlevel := 1 }
  else if oneOf value ["all"] then return fun o => { o with optimizationlevel := 4 }
  else if oneOf value ["space", "size"] then return fun o => { o with optfor := .int 1 }
  else if oneOf value ["speed"] then return fun o => { o with optfor := .int 0 }
  else throw ⟨s!"unknown -opt option: {pyRepr value}"⟩

/-- `-traceback`. -/
def tracebackOption (py : Texts) (value : Str) :
    Except ValueError (PPCCodeGenPanel → PPCCodeGenPanel) :=
  let value := py.fold value
  if value ∉ PPCCodeGenPanel.traceback.map Prod.fst then
    throw ⟨"-traceback expects none|inline|outofline"⟩
  else return fun g => { g with tracebacktables := .str value }

/-- `-function-align`. -/
def functionAlignOption (py : Texts) (value : Str) :
    Except ValueError (PPCCodeGenPanel → PPCCodeGenPanel) := do
  let value ← py.int value
  if value ∉ [4, 8, 16, 32] then throw ⟨"function alignment expects 4|8|16|32"⟩
  else return fun g => { g with functionAlign := value }

/-! ## The loop -/

/-- A branch of the loop: the spellings of a flag, what it takes, and the panel it sets. -/
inductive Row
  | compiler (names : List String) (takes : Takes ValueError CCompilerPanel Str)
  | warnings (names : List String) (takes : Takes ValueError CWarningsPanel Str)
  | optimizer (names : List String) (takes : Takes ValueError PPCGlobalOptimizerPanel Str)
  | codeGen (names : List String) (takes : Takes ValueError PPCCodeGenPanel Str)

namespace Row

/-- The spellings. -/
def names : Row → List String
  | compiler names _ | warnings names _ | optimizer names _ | codeGen names _ => names

/-- What the flag does to the panels. -/
def takes : Row → Takes ValueError CompilerPanels Str
  | compiler _ takes => takes.lift fun f p => { p with compiler := f p.compiler }
  | warnings _ takes => takes.lift fun f p => { p with warnings := f p.warnings }
  | optimizer _ takes => takes.lift fun f p => { p with optimizer := f p.optimizer }
  | codeGen _ takes => takes.lift fun f p => { p with codeGen := f p.codeGen }

/-- The flag is one for warnings. -/
def isWarnings : Row → Bool
  | warnings .. => true
  | _ => false

end Row

/-- The branches of the loop, for a token `flag`. -/
def table (py : Texts) (flag : Str) : List Row :=
  [.compiler ["-dialect", "-lang"] (needing flag (dialectOption py)),
    .compiler ["-requireprotos"] (sets fun c => { c with checkprotos := 1 }),
    .compiler ["-relax_pointers"] (sets fun c => { c with mpwpointerstyle := 1 }),
    .compiler ["-flag"] (needing flag (pragmaOption py)),
    .compiler ["-trigraphs"] (switch py flag fun on c => { c with trigraphs := on }),
    .compiler ["-stdkeywords"] (switch py flag fun on c => { c with onlystdkeywords := on }),
    .compiler ["-wchar_t"] (switch py flag fun on c => { c with wcharType := on }),
    .compiler ["-cpp_exceptions"] (switch py flag fun on c => { c with enableexceptions := on }),
    .compiler ["-rtti"] (switch py flag fun on c => { c with useRTTI := on }),
    .compiler ["-bool"] (switch py flag fun on c => { c with booltruefalse := on }),
    .compiler ["-iso_templates"] (switch py flag fun on c => { c with templateparser := on }),
    .codeGen ["-profile"] (switch py flag fun on g => { g with profiler := on }),
    .codeGen ["-fp_contract"] (switch py flag fun on g => { g with fpcontract := on }),
    .codeGen ["-vector"] (switch py flag fun on g => { g with altivec := on }),
    .codeGen ["-volatileasm"] (switch py flag fun on g => { g with volatileasm := on }),
    .codeGen ["-strict_ieee"] (switch py flag fun on g => { g with strictIEEEfp := on }),
    .codeGen ["-gen-fsel"] (switch py flag fun on g => { g with genfsel := on }),
    .codeGen ["-ordered-fp-compares"] (switch py flag fun on g => { g with orderedfpcmp := on }),
    .codeGen ["-altivec_move_block"] (switch py flag fun on g => { g with altivecMoveBlock := on }),
    .codeGen ["-largetoc"] (switch py flag fun on g => { g with largetoc := on }),
    .codeGen ["-linkerpoolsstrings"]
      (switch py flag fun on g => { g with linkerpoolsstrings := on }),
    .compiler ["-strict"] (switch py flag fun on c => { c with ansistrict := on }),
    .compiler ["-mapcr"] (switch py flag fun on c => { c with mpwcnewline := on }),
    .compiler ["-nomapcr", "-no-mapcr"] (sets fun c => { c with mpwcnewline := 0 }),
    .compiler ["-char"] (needing flag (charOption py)),
    .compiler ["-enum"] (needing flag (enumOption py)),
    .compiler ["-ansi"] (.optional "on".toList (ansiOption py flag)),
    .compiler ["-strings"] (needing flag (stringsOption py)),
    .compiler ["-inline"] (needing flag (inlineOption py)),
    .warnings ["-w", "-warning"] (needing flag (warningOption py)),
    .warnings ["-wall"] (.alone (setWarnings py
      ["illpragma", "emptydecl", "possible", "unusedvar", "unusedarg", "extracomma", "pedantic",
        "iserror", "hidevirtual", "implicitconv", "notinlined", "structclass"])),
    .warnings ["-werror"] (.alone (setWarnings py ["iserror"])),
    .warnings ["-wunused"] (.alone (setWarnings py ["unusedvar", "unusedarg"])),
    .optimizer ["-opt"] (needing flag (optOption py)),
    .codeGen ["-align"] (needing flag fun value =>
      return fun g => { g with structalignment := .str (py.fold value) }),
    .codeGen ["-proc", "-processor", "-target"] (needing flag fun value =>
      return fun g => { g with processor := .str value }),
    .codeGen ["-traceback"] (needing flag (tracebackOption py)),
    .codeGen ["-rostr", "-readonlystrings"] (sets fun g => { g with readonlystrings := 1 }),
    .codeGen ["-fwritable-strings"] (sets fun g => { g with readonlystrings := 0 }),
    .codeGen ["-tocdata"] (sets fun g => { g with tocdata := 1, vectortocdata := 1 }),
    .codeGen ["-notocdata", "-no-tocdata"]
      (sets fun g => { g with tocdata := 0, vectortocdata := 0 }),
    .codeGen ["-schedule", "-fschedule-insns"] (sets fun g => { g with schedule := 1 }),
    .codeGen ["-noschedule", "-fno-schedule-insns"] (sets fun g => { g with schedule := 0 }),
    .codeGen ["-fpeephole"] (sets fun g => { g with peephole := 1 }),
    .codeGen ["-fno-peephole"] (sets fun g => { g with peephole := 0 }),
    .codeGen ["-function-align", "-funcalign"] (needing flag (functionAlignOption py)),
    .codeGen ["-compilerpoolsstrings"] (sets fun g => { g with poolconst := 1 }),
    .codeGen ["-nocompilerpoolsstrings"] (sets fun g => { g with poolconst := 0 }),
    .codeGen ["-relax_ieee", "-relax-ieee"] (sets fun g => { g with strictIEEEfp := 0 }),
    .codeGen ["-no-relax_ieee", "-no-relax-ieee"] (sets fun g => { g with strictIEEEfp := 1 })]

/-- The branch that a token takes, by its folded text. -/
def rowOf (py : Texts) (flag : Str) : Option Row :=
  (table py flag).find? fun row => oneOf (py.fold flag) row.names

/-- What a token takes and does; a token without a branch is left over. -/
def takesOf (py : Texts) (flag : Str) : Option (Takes ValueError CompilerPanels Str) :=
  (rowOf py flag).map Row.takes

/-- `value.startswith("-")`. -/
def dashed (value : Str) : Bool := value.head? = some '-'

/-- `from_flags`. -/
def fromFlags (py : Texts) (argv : List Str) :
    Except ValueError (CompilerPanels × List Str) :=
  scan id (takesOf py) dashed argv .defaults []

/-- `from_flags`, with the tokens left over under their positions. -/
def fromFlagsAt (py : Texts) (argv : List Str) :
    Except ValueError (CompilerPanels × List (Str × Nat)) :=
  scan Prod.fst (takesOf py) dashed argv.zipIdx .defaults []

theorem toNat_toLower (c : Char) : c.toLower.toNat =
    if 0x41 ≤ c.toNat ∧ c.toNat ≤ 0x5A then c.toNat + 0x20 else c.toNat := by
  have hiff : (c.val ≥ 'A'.val ∧ c.val ≤ 'Z'.val) ↔ 0x41 ≤ c.toNat ∧ c.toNat ≤ 0x5A := by
    rw [ge_iff_le, UInt32.le_iff_toNat_le, UInt32.le_iff_toNat_le]
    exact Iff.rfl
  unfold Char.toLower
  by_cases hupper : c.val ≥ 'A'.val ∧ c.val ≤ 'Z'.val
  · have hrange := hiff.mp hupper
    rw [dif_pos hupper, if_pos hrange]
    show (c.val + ('a'.val - 'A'.val)).toNat = c.val.toNat + 0x20
    have hval : c.val.toNat ≤ 0x5A := hrange.2
    have hstep : ('a'.val - 'A'.val).toNat = 0x20 := rfl
    rw [UInt32.toNat_add]
    omega
  · rw [dif_neg hupper, if_neg (mt hiff.mpr hupper)]

/-- Folding ASCII makes no dash. -/
theorem asciiTexts_dash (s : Str) (h : dashed (asciiTexts.fold s) = true) : dashed s = true := by
  cases s with
  | nil => exact h
  | cons c s =>
    have hc : c.toLower = '-' := by simpa [dashed, asciiTexts] using h
    have hlower := toNat_toLower c
    rw [hc] at hlower
    have hdash : c.toNat = '-'.toNat := by
      by_cases hupper : 0x41 ≤ c.toNat ∧ c.toNat ≤ 0x5A
      · rw [if_pos hupper] at hlower
        have hcode : '-'.toNat = 0x2D := rfl
        omega
      · rw [if_neg hupper] at hlower
        exact hlower.symm
    rw [Char.toNat_inj.mp hdash]
    rfl

variable {py : Texts}

/-- Every spelling begins with a dash. -/
theorem table_dashed (flag : Str) : ∀ row ∈ table py flag, ∀ name ∈ row.names,
    dashed name.toList = true := by
  simp only [table, List.forall_mem_cons, Row.names]
  simp [dashed]

theorem rowOf_mem {flag : Str} {row : Row} (h : rowOf py flag = some row) :
    row ∈ table py flag ∧ ∃ name ∈ row.names, name.toList = py.fold flag := by
  have hname := List.find?_some h
  simp only [oneOf, List.any_eq_true, decide_eq_true_eq] at hname
  exact ⟨List.mem_of_find?_eq_some h, hname⟩

/-- A flag begins with a dash, if folding never makes one. -/
theorem dashed_of_takesOf (hdash : ∀ s, dashed (py.fold s) = true → dashed s = true) (flag : Str)
    (h : takesOf py flag ≠ none) : dashed flag = true := by
  obtain ⟨row, hrow⟩ : ∃ row, rowOf py flag = some row := by
    rw [takesOf, ne_eq, Option.map_eq_none_iff] at h
    exact Option.ne_none_iff_exists'.mp h
  obtain ⟨hmem, name, hname, heq⟩ := rowOf_mem hrow
  exact hdash flag (heq ▸ table_dashed flag row hmem name hname)

/-- The positions do not matter to the loop. -/
theorem fromFlags_eq (argv : List Str) : fromFlags py argv =
    (fun r => (r.1, r.2.map Prod.fst)) <$> fromFlagsAt py argv := by
  have hmap := scan_map id (takesOf py) dashed Prod.fst argv.zipIdx [] .defaults
  rwa [List.zipIdx_map_fst] at hmap

end Cli

end Cwhost
