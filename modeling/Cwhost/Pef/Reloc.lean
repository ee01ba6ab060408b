import Cwhost.Errors
import Cwhost.Lib.ByteMemory
import Cwhost.Lib.Outcome

/-!
# The relocation interpreter (`pef.py`, `apply_relocations`)

The stream is a list of 16-bit words. The interpreter decodes a token, executes it, and appends
it to the history that later repeats replay. The position, the import index and the two current
deltas live across tokens and across replays.
-/

namespace Cwhost.Pef

open Lib

/-- The `kind` of a token. -/
inductive Kind
  | skip
  | c
  | d
  | tv12
  | tv8
  | vtable8
  | importRun
  | smImport
  | smC
  | smD
  | smSection
  | incr
  | smRepeat
  | setPosition
  | lgImport
  | lgRepeat
  | lgSection
  deriving DecidableEq, Repr

/-- `(offset, length, kind)`. -/
structure Token where
  offset : Nat
  length : Nat
  kind : Kind
  deriving DecidableEq, Repr

/-- The kind and the length in words of the instruction that starts with `word`. -/
def decodeKind (word : Nat) : Option (Kind × Nat) :=
  let top2 := word >>> 14
  let top7 := word >>> 9
  let top4 := word >>> 12
  let top6 := word >>> 10
  if top2 = 0 then some (.skip, 1)
  else if top7 = 0b0100000 then some (.c, 1)
  else if top7 = 0b0100001 then some (.d, 1)
  else if top7 = 0b0100010 then some (.tv12, 1)
  else if top7 = 0b0100011 then some (.tv8, 1)
  else if top7 = 0b0100100 then some (.vtable8, 1)
  else if top7 = 0b0100101 then some (.importRun, 1)
  else if top7 = 0b0110000 then some (.smImport, 1)
  else if top7 = 0b0110001 then some (.smC, 1)
  else if top7 = 0b0110010 then some (.smD, 1)
  else if top7 = 0b0110011 then some (.smSection, 1)
  else if top4 = 0b1000 then some (.incr, 1)
  else if top4 = 0b1001 then some (.smRepeat, 1)
  else if top6 = 0b101000 then some (.setPosition, 2)
  else if top6 = 0b101001 then some (.lgImport, 2)
  else if top6 = 0b101100 then some (.lgRepeat, 2)
  else if top6 = 0b101101 then some (.lgSection, 2)
  else none

/-- What the interpreter carries from token to token. -/
structure RelocState where
  section_ : List UInt8
  pos : Nat
  importIndex : Nat
  currentC : Int
  currentD : Int
  deriving DecidableEq, Repr

/-- The arguments that do not change. -/
structure RelocEnv where
  sectionDeltas : List Int
  imports : List Int

/-- A step of the interpreter. -/
abbrev RelocM := EStateM Exc RelocState

/-- `add_word`: add to the big-endian word at the position, modulo `2 ^ 32`. -/
def addWord (value : Int) : RelocM Unit := do
  let s ← get
  if s.pos + 4 > s.section_.length then
    throw (.hostError s!"relocation position out of range: {hex s.pos}")
  let old := beNat ((s.section_.drop s.pos).take 4)
  let new := ((old + value) % 2 ^ 32).toNat
  set { s with section_ := s.section_.take s.pos ++ toBE 4 new ++ s.section_.drop (s.pos + 4) }

/-- `pos += n`. -/
def advance (n : Nat) : RelocM Unit := modify fun s => { s with pos := s.pos + n }

/-- `delta`. -/
def delta (env : RelocEnv) (index : Nat) : RelocM Int :=
  match env.sectionDeltas[index]? with
  | some value => pure value
  | none => throw (.hostError s!"relocation references section {index}")

/-- `imp`. -/
def imp (env : RelocEnv) (index : Nat) : RelocM Int :=
  match env.imports[index]? with
  | some value => pure value
  | none => throw (.hostError s!"relocation references import {index}")

/-- `words[offset]`, for the offsets of decoded tokens. -/
def wordAt (words : List Nat) (offset : Nat) : Nat := words.getD offset 0

/-- The error of a repeat inside a repeated block. -/
def nestedRepeat : Exc := .hostError "nested relocation repeats are illegal"

/-- `execute` with `repeating=True`. -/
def executeRepeating (env : RelocEnv) (words : List Nat) (token : Token) : RelocM Unit := do
  let word := wordAt words token.offset
  let next := wordAt words (token.offset + 1)
  let low9 := word &&& 0x1FF
  match token.kind with
  | .skip =>
    advance (4 * (word >>> 6 &&& 0xFF))
    timesM (word &&& 0x3F) do
      addWord (← get).currentD
      advance 4
  | .c =>
    let value := (← get).currentC
    timesM (low9 + 1) do
      addWord value
      advance 4
  | .d =>
    let value := (← get).currentD
    timesM (low9 + 1) do
      addWord value
      advance 4
  | .tv12 =>
    timesM (low9 + 1) do
      addWord (← get).currentC
      advance 4
      addWord (← get).currentD
      advance 4
      advance 4
  | .tv8 =>
    timesM (low9 + 1) do
      addWord (← get).currentC
      advance 4
      addWord (← get).currentD
      advance 4
  | .vtable8 =>
    timesM (low9 + 1) do
      addWord (← get).currentD
      advance 8
  | .importRun =>
    timesM (low9 + 1) do
      let value ← imp env (← get).importIndex
      addWord value
      modify fun s => { s with importIndex := s.importIndex + 1 }
      advance 4
  | .smImport =>
    let value ← imp env low9
    addWord value
    modify fun s => { s with importIndex := low9 + 1 }
    advance 4
  | .smC =>
    let value ← delta env low9
    modify fun s => { s with currentC := value }
  | .smD =>
    let value ← delta env low9
    modify fun s => { s with currentD := value }
  | .smSection =>
    let value ← delta env low9
    addWord value
    advance 4
  | .incr => advance ((word &&& 0xFFF) + 1)
  | .smRepeat | .lgRepeat => throw nestedRepeat
  | .setPosition => modify fun s => { s with pos := (word &&& 0x3FF) <<< 16 ||| next }
  | .lgImport =>
    let index := (word &&& 0x3FF) <<< 16 ||| next
    let value ← imp env index
    addWord value
    modify fun s => { s with importIndex := index + 1 }
    advance 4
  | .lgSection =>
    let subop := word >>> 6 &&& 0xF
    let index := (word &&& 0x3F) <<< 16 ||| next
    if subop = 0 then do
      let value ← delta env index
      addWord value
      advance 4
    else if subop = 1 then do
      let value ← delta env index
      modify fun s => { s with currentC := value }
    else if subop = 2 then do
      let value ← delta env index
      modify fun s => { s with currentD := value }
    else throw (.hostError s!"unknown long relocation section sub-op {subop}")

/-- The loop over `reversed(history)`: the last tokens that make up `blockWords` words. -/
def selectBlock (blockWords : Nat) : List Token → List Token → Nat → RelocM (List Token)
  | [], selected, total =>
    if total ≠ blockWords then
      throw (.hostError "relocation repeat has no complete preceding block")
    else pure selected
  | prior :: earlier, selected, total =>
    let selected := prior :: selected
    let total := total + prior.length
    if total = blockWords then pure selected
    else if total > blockWords then
      throw (.hostError "relocation repeat splits an instruction")
    else selectBlock blockWords earlier selected total

/-- `for prior in selected: execute(prior, repeating=True)`. -/
def replay (env : RelocEnv) (words : List Nat) : List Token → RelocM Unit
  | [] => pure ()
  | prior :: selected => do
    executeRepeating env words prior
    replay env words selected

/-- The repeat branch of `execute`. -/
def executeRepeat (env : RelocEnv) (words : List Nat) (history : List Token)
    (blockWords repeatCount : Nat) : RelocM Unit := do
  let selected ← selectBlock blockWords history.reverse [] 0
  timesM repeatCount (replay env words selected)

/-- `execute` with `repeating=False`. Its other branches are those of `executeRepeating`. -/
def execute (env : RelocEnv) (words : List Nat) (history : List Token) (token : Token) :
    RelocM Unit :=
  let word := wordAt words token.offset
  let next := wordAt words (token.offset + 1)
  match token.kind with
  | .smRepeat =>
    executeRepeat env words history ((word >>> 8 &&& 0xF) + 1) ((word &&& 0xFF) + 1)
  | .lgRepeat =>
    if token.length ≠ 2 then throw (.hostError "malformed long relocation repeat")
    else
      executeRepeat env words history ((word >>> 6 &&& 0xF) + 1) ((word &&& 0x3F) <<< 16 ||| next)
  | _ => executeRepeating env words token

/-- The main loop, from word `offset` on; `rest` is what is left of the stream there. -/
def relocLoop (env : RelocEnv) (words : List Nat) : List Nat → Nat → List Token → RelocM Unit
  | [], _, _ => pure ()
  | word :: rest, offset, history =>
    match decodeKind word with
    | none => throw (.hostError s!"unknown relocation opcode {hex06 word}")
    | some (kind, length) =>
      let token := { offset := offset, length := length, kind := kind }
      if length = 2 then
        match rest with
        | [] => throw (.hostError s!"truncated relocation instruction at word {offset}")
        | _ :: rest' => do
          execute env words history token
          relocLoop env words rest' (offset + 2) (history ++ [token])
      else do
        execute env words history token
        relocLoop env words rest (offset + 1) (history ++ [token])

/-- The big-endian 16-bit words of a byte string of even length. -/
def streamWords : List UInt8 → List Nat
  | hi :: lo :: rest => (hi.toNat * 256 + lo.toNat) :: streamWords rest
  | _ => []

/-- The body of `apply_relocations`. -/
def relocate (stream : List UInt8) (env : RelocEnv) : RelocM Unit := do
  if stream.length % 2 ≠ 0 then
    throw (.hostError "relocation stream has an odd byte length")
  relocLoop env (streamWords stream) (streamWords stream) 0 []

/-- `apply_relocations`: the section is part of the state, and the result is what becomes of
it. -/
def applyRelocations (image stream : List UInt8) (env : RelocEnv) (initialC initialD : Int) :
    EStateM.Result Exc RelocState Unit :=
  relocate stream env
    { section_ := image, pos := 0, importIndex := 0, currentC := initialC, currentD := initialD }

end Cwhost.Pef
