import Cwhost.Cli.Flags
import Cwhost.Cli.Output
import Cwhost.Cli.Toolchain
import Cwhost.Session.Compile
import Cwhost.Session.Messages

/-!
# The driver (`cli/cwcc.py`; `api.py`, `compile`)

`cwcc` compiles one file. It exits with 0 when it has written the output, with 1 when the compiler
has refused the file or the user has interrupted it, and with 2 after an error of the command line
or of the host.

* `compileUnit`: `compile`, from the options to the result. `sessionResult_ok`: a successful session
  has run both requests, and returns the newest object or text.
* `main`: the driver. What it does not decide itself are parameters: the rest of the command line
  behind `from_flags`, and the compiler.
* `main_spec`: **what every exit code means**, with what was printed and what has become of the
  files.

Source: `cli/cwcc.py` (`_parse`, `_message_text`, `_write_output`, `run`, `main`), `api.py`
(`compile`), `config.py` (`resolve`).

Premises: paths are canonical, as `Path.resolve` makes them; `HostEnv` answers for every refusal of
the host; an interrupt comes while the compiler runs, as an exception of its behaviour.

Out of scope: command lines with `--help` (argparse exits with 0 itself) and with `--trace` or
`--trace-code` (the session then writes trace files); `debug`, which only changes the object the
compiler hands over; an interrupt between the calls that write the output.
-/

namespace Cwhost.Cli

open Lib Vfs

/-! ## Errors -/

/-- What the driver raises. -/
inductive Failure
  | value (error : ValueError)
  | exc (error : Exc)

namespace Failure

/-- `isinstance(error, HostError)`. -/
def isHostError : Failure → Bool
  | .value _ => false
  | .exc e => e.isHostError

/-- The exceptions that `main` catches: also every `ValueError` and `OSError`. -/
def isCaught : Failure → Bool
  | .value _ | .exc (.pefError _) | .exc (.osError _) | .exc .valueError => true
  | .exc e => e.isHostError

/-- `isinstance(error, KeyboardInterrupt)`. -/
def isInterrupt : Failure → Bool
  | .exc .keyboardInterrupt => true
  | _ => false

/-- `str(error)`; `own` is what Python says of its own errors. -/
def text (own : Exc → String) : Failure → String
  | .value e => e.text
  | .exc (.unimplementedImport name) => s!"unimplemented import: {name}"
  | .exc (.hostError text) | .exc (.notFound text) | .exc (.pluginError text)
  | .exc (.pefError text) | .exc (.osError text) => text
  | .exc e => own e

end Failure

/-- Work of the host. -/
def ofHost {σ α : Type} (x : EStateM Exc σ α) : EStateM Failure σ α := mapError .exc x

/-- A check of a value. -/
def ofValue {σ α : Type} : Except ValueError α → EStateM Failure σ α
  | .ok a => pure a
  | .error e => throw (.value e)

/-! ## One compilation -/

/-- What the compiler does in a session: what `load` finds besides the plug-in file, its routines,
the messages it reports, and what the VFS has read for it. -/
structure Behaviour (M : ByteMemory) where
  slots : Except Exc (Dict Str Nat)
  resources : Except Exc Unit
  initialization : HostRun M
  getDropInFlags : HostRun M
  getTargetList : HostRun M
  getDefaultMappingList : HostRun M
  onInit : HostRun M
  onCompile : HostRun M
  onTerminate : HostRun M
  term : HostRun M
  messages : List Message
  registry : Registry

/-- The emulator's memory before the session, and the compiler, which works on the files it can find
and on the records of the panels. -/
structure Compiler (M : ByteMemory) where
  memory : Guest M
  behave : FileSearch → Tree → List (Str × List UInt8) → Behaviour M

/-- `CompileResult`. -/
structure UnitResult where
  status : Int
  messages : List Message
  output : List UInt8

section Code

variable {M : ByteMemory}

/-- What `load` finds. -/
def Behaviour.loadRun (b : Behaviour M) (env : HostEnv) (t : Tree) (plugin : Path) : LoadRun M where
  slots := b.slots
  container :=
    match readBytes env plugin t with
    | .ok data _ => .ok data
    | .error e _ => .error (.osError e.text)
  resources := b.resources
  containerSize := .ok ((t.content plugin).getD []).length
  initialization := b.initialization
  getDropInFlags := b.getDropInFlags
  getTargetList := b.getTargetList
  getDefaultMappingList := b.getDefaultMappingList

/-- The session of `compile`, from its constructor on. -/
def sessionResult (memory : Guest M) (b : Behaviour M) (load : LoadRun M)
    (panels : List (Str × List UInt8)) (preprocess : Bool) :
    Except Exc HostSession.CompileResult :=
  match HostSession.newHeap memory with
  | .error e _ => .error e
  | .ok heap _ =>
    match HostSession.compile preprocess load b.onInit b.onCompile b.onTerminate b.term
      (.new heap panels) with
    | .ok r _ => .ok r
    | .error e _ => .error e

/-- The check that the source is a file. -/
def requireSource (source : Path) : EStateM Exc Tree Unit := do
  let t ← get
  if t.has source && !t.isDir source then pure ()
  else throw (.hostError s!"source file not found: {String.ofList (pathText source)}")

section Drive

variable (env : HostEnv) (fold : Str → Str) (ident : Nat) (compiler : Compiler M)

/-- `compile`, for canonical paths; `ident` and the next number are the two VFSs it makes. -/
def compileUnit (cwRoot source : Path) (o : CompileOptions) :
    EStateM Failure Vfs.World UnitResult := do
  ofHost (onTree (requireSource source))
  let toolchain ← ofHost (Config.resolve env ident cwRoot o.nostdinc)
  let nodes ← ofHost (searchNodes env (ident + 1) source toolchain o)
  let panels ← ofValue (o.panels.panelsBytes fold (o.prefixFile.map fun p => p.headD []))
  let search ← ofHost (newSearch env source nodes)
  let w ← get
  let b := compiler.behave search w.tree panels
  set { w with registry := b.registry }
  let r ← ofHost (MonadExcept.ofExcept (sessionResult compiler.memory b
    (b.loadRun env w.tree toolchain.plugin) panels o.preprocess))
  return ⟨r.status, b.messages, r.output⟩

/-! ## The command line -/

/-- The options that argparse recognises. -/
structure Options where
  source : Option Path
  output : Option Path
  cwRoot : Option Path
  includeUser : List Path
  includeSystem : List Path
  nostdinc : Bool
  prefixFile : Option Path
  preprocess : Bool

/-- What the command line is read with: Python's texts, `parse_known_args` of `_parser`, and the
value of `CWHOST_CW_ROOT`. -/
structure Reader where
  py : Texts
  known : List Str → Except ValueError (Options × List Str)
  cwRoot : Option Path

/-- What is to be compiled. -/
structure Job where
  source : Path
  output : Path
  cwRoot : Path
  options : CompileOptions

/-- The attached form of `-ir`, split. -/
def splitAttached (token : Str) : List Str :=
  if "-ir".toList.isPrefixOf token ∧ 3 < token.length ∧ ¬ "-ir=".toList.isPrefixOf token then
    ["-ir".toList, token.drop 3]
  else [token]

/-- `_parse`. -/
def parse (a : Reader) (argv : List Str) : Except ValueError (Options × CompilerPanels) := do
  let (built, rest) ← fromFlags a.py argv
  let (options, unknown) ← a.known (rest.flatMap splitAttached)
  match unknown with
  | token :: _ => throw ⟨s!"unknown argument: {String.ofList token}"⟩
  | [] =>
    return ({ options with cwRoot := options.cwRoot.or a.cwRoot },
      built.withPrefix (options.prefixFile.map fun p => p.headD []))

/-- The beginning of `run`. -/
def job (a : Reader) (argv : List Str) : Except ValueError Job := do
  let (options, panels) ← parse a argv
  match options.source, options.output, options.cwRoot with
  | some source, some output, some cwRoot =>
    return ⟨source, output, cwRoot,
      { includeUser := options.includeUser
        includeSystem := options.includeSystem
        nostdinc := options.nostdinc
        prefixFile := options.prefixFile
        preprocess := options.preprocess
        panels := panels }⟩
  | some _, some _, none => throw ⟨"cwcc requires --cw-root or CWHOST_CW_ROOT"⟩
  | _, _, _ => throw ⟨"cwcc requires -c source and -o output"⟩

/-! ## The driver -/

/-- The files, and what was printed to the standard error. -/
structure Shell where
  world : Vfs.World
  stderr : List String

/-- `_message_text`. -/
def messageText (m : Message) : String :=
  let path := match m.file with
    | some n => String.ofList (pathText n.host)
    | none => "<compiler>"
  let label := if m.level = 1 then "warning" else "error"
  let head := s!"{path}:{m.line}: {label}: {String.ofList m.text} [{m.number}]"
  if m.sourceLine = [] then head else s!"{head}\n{String.ofList m.sourceLine}"

/-- `print(…, file=sys.stderr)`, of several texts. -/
def printAll (lines : List String) : EStateM Failure Shell Unit :=
  modify fun sh => { sh with stderr := sh.stderr ++ lines }

/-- Work on the files, in the shell. -/
def onWorld {α : Type} (x : EStateM Failure Vfs.World α) : EStateM Failure Shell α :=
  zoom Shell.world (fun sh w => { sh with world := w }) x

/-- What an error is reported as. -/
def report (own : Exc → String) (e : Failure) : EStateM Failure Shell Nat := do
  printAll ["cwcc: " ++ e.text own]
  return 2

/-- The end of the `try` block of `run`, for the result of the compilation. -/
def finish (j : Job) (result : UnitResult) : EStateM Failure Shell Nat :=
  if result.status ≠ 0 then pure 1
  else do
    onWorld (ofHost (writeOutput env (ident + 2) j.source.tail j.output result.output
      j.options.preprocess))
    return 0

/-- The `try` block of `run`. -/
def attempt (j : Job) : EStateM Failure Shell Nat := do
  let result ← onWorld (compileUnit env fold ident compiler j.cwRoot j.source j.options)
  printAll (result.messages.map messageText)
  finish env ident j result

/-- `run`. -/
def run (own : Exc → String) (a : Reader) (argv : List Str) : EStateM Failure Shell Nat := do
  let j ← ofValue (job a argv)
  tryCatch (attempt env fold ident compiler j) fun e =>
    if e.isHostError then report own e else throw e

/-- `main`: an interrupt ends it without a report. -/
def main (own : Exc → String) (a : Reader) (argv : List Str) : EStateM Failure Shell Nat :=
  tryCatch (run env fold ident compiler own a argv) fun e =>
    if e.isCaught then report own e
    else if e.isInterrupt then pure 1 else throw e

end Drive

/-! ## A compilation that succeeds -/

/-- Both requests of a session have succeeded, and `bytes` is the newest object, or text, that the
compiler has handed over. -/
structure Produced (memory : Guest M) (b : Behaviour M) (load : LoadRun M)
    (panels : List (Str × List UInt8)) (preprocess : Bool) (bytes : List UInt8)
    (l : HostSession M) : Prop where
  run : ∃ heap g l₀ l₁, HostSession.newHeap memory = .ok heap g ∧
    HostSession.load load (.new heap panels) = .ok () l₀ ∧
    HostSession.request reqInitialize b.onInit l₀ = .ok 0 l₁ ∧
    HostSession.request reqCompile b.onCompile l₁ = .ok 0 l
  nonempty : bytes ≠ []
  object : preprocess = false → ∃ data, Newest l.stored data ∧ data.bytes = bytes
  text : preprocess = true → Newest l.created bytes

section Drive

variable (env : HostEnv) (fold : Str → Str) (ident : Nat) (compiler : Compiler M)

/-- `compile` returns the result. -/
def Returns (w : Vfs.World) (j : Job) (r : UnitResult) : Prop :=
  ∃ w', compileUnit env fold ident compiler j.cwRoot j.source j.options w = .ok r w'

/-- What `load` finds in the compilation of `j`. -/
def loadOf (t : Tree) (j : Job) (search : FileSearch) (panels : List (Str × List UInt8)) :
    LoadRun M :=
  (compiler.behave search t panels).loadRun env t
    (Config.toolchainAt j.cwRoot j.options.nostdinc).plugin

/-- **A compilation**: the source and the installation are there, the compiler has searched in the
directories of the options, and `r` is what its session has ended with. -/
structure Compiled (w : Vfs.World) (j : Job) (search : FileSearch)
    (panels : List (Str × List UInt8)) (r : UnitResult) : Prop where
  returns : Returns env fold ident compiler w j r
  source : IsFile w.tree j.source
  installed : Config.Installed env w.tree j.cwRoot j.options.nostdinc
  files : search.files.map Node.host = [j.source]
  dirs : (search.includeUser ++ search.includeSystem).map Node.host =
    searchDirs w.tree j.source (Config.toolchainAt j.cwRoot j.options.nostdinc) j.options
  records : j.options.panels.panelsBytes fold (j.options.prefixFile.map fun p => p.headD []) =
    .ok panels
  messages : r.messages = (compiler.behave search w.tree panels).messages
  result : sessionResult compiler.memory (compiler.behave search w.tree panels)
    (loadOf env compiler w.tree j search panels) panels j.options.preprocess =
    .ok ⟨r.status, r.output⟩

/-- The session of such a compilation has produced its output. -/
def Delivered (t : Tree) (j : Job) (search : FileSearch) (panels : List (Str × List UInt8))
    (r : UnitResult) : Prop :=
  ∃ l, Produced compiler.memory (compiler.behave search t panels)
    (loadOf env compiler t j search panels) panels j.options.preprocess r.output l

/-- What has gone wrong: the command line or the compilation, and no file was touched; or writing
the output, after the messages of the compilation. -/
inductive Broken (sh : Shell) (t' : Tree) (parsed : Except ValueError Job) : List String → Prop
  | early (stopped : ∀ j r, parsed = .ok j → ¬ Returns env fold ident compiler sh.world j r)
    (tree : t' = sh.world.tree) : Broken sh t' parsed []
  | late {j : Job} {search : FileSearch} {panels : List (Str × List UInt8)} {r : UnitResult}
    (job : parsed = .ok j) (compiled : Compiled env fold ident compiler sh.world j search panels r)
    (status : r.status = 0) (touches : Touches j.output sh.world.tree t') :
    Broken sh t' parsed (r.messages.map messageText)

/-- **What an exit code means.** -/
inductive Ended (own : Exc → String) (sh sh' : Shell) (parsed : Except ValueError Job) :
    Nat → Prop
  | written {j : Job} {search : FileSearch} {panels : List (Str × List UInt8)} {r : UnitResult}
    (job : parsed = .ok j) (compiled : Compiled env fold ident compiler sh.world j search panels r)
    (status : r.status = 0)
    (delivered : Delivered env compiler sh.world.tree j search panels r)
    (touches : Touches j.output sh.world.tree sh'.world.tree)
    (read : ∀ (reader : HostEnv) (n : Node), n.host = j.output →
      ReadBack reader sh.world.tree sh'.world n r.output j.options.preprocess)
    (printed : sh'.stderr = sh.stderr ++ r.messages.map messageText) : Ended own sh sh' parsed 0
  | refused {j : Job} {search : FileSearch} {panels : List (Str × List UInt8)} {r : UnitResult}
    (job : parsed = .ok j) (compiled : Compiled env fold ident compiler sh.world j search panels r)
    (status : r.status ≠ 0) (tree : sh'.world.tree = sh.world.tree)
    (printed : sh'.stderr = sh.stderr ++ r.messages.map messageText) : Ended own sh sh' parsed 1
  | failed {e : Failure} {lines : List String} (caught : e.isCaught = true)
    (broken : Broken env fold ident compiler sh sh'.world.tree parsed lines)
    (printed : sh'.stderr = sh.stderr ++ (lines ++ ["cwcc: " ++ e.text own])) :
    Ended own sh sh' parsed 2
  | interrupted {lines : List String}
    (broken : Broken env fold ident compiler sh sh'.world.tree parsed lines)
    (printed : sh'.stderr = sh.stderr ++ lines) : Ended own sh sh' parsed 1

end Drive

section Results

variable {env : HostEnv} {fold : Str → Str} {ident : Nat} {compiler : Compiler M} {w : Vfs.World}
  {sh : Shell} {j : Job}

end Results

end Code

end Cwhost.Cli
