import Cwhost.Lib.Dict
import Cwhost.Pef.Container

/-!
# Pattern-initialised data (`pef.py`, `varint` and `PEF.pidata`)

The packed bytes are a sequence of instructions that append to the output. The loop stops at the
end of the packed bytes or as soon as the output is long enough, whichever comes first.

* `pidataStep_position`: an instruction reads at least one byte, so the loop, bounded here by the
  number of packed bytes, always reaches one of its own two ends (`pidataLoop_done`).

Source: `pef.py`, `varint` and `PEF.pidata`. A slice that runs past the end is cut off, as in
Python; `data * count` raises `OverflowError` for a count or a length beyond `sys.maxsize`
(`repeatBytes`).

Premises: the integers of `varint` are unbounded, as Python's are.

Out of scope: the memory of the machine (a repetition below `sys.maxsize` that finds none is a
`MemoryError`).
-/

namespace Cwhost.Pef

open Lib

/-- The loop of `varint`, over the bytes from `pos` on. -/
def varintFrom : List UInt8 → Nat → Nat → Except Exc (Nat × Nat)
  | [], _, _ => throw (.pefError "truncated variable-length integer")
  | b :: rest, value, pos =>
    let value := value <<< 7 ||| (b.toNat &&& 0x7F)
    if b.toNat &&& 0x80 = 0 then pure (value, pos + 1) else varintFrom rest value (pos + 1)

/-- `varint`. -/
def varint (buf : List UInt8) (pos : Nat) : Except Exc (Nat × Nat) :=
  varintFrom (buf.drop pos) 0 pos

/-- An entry of `instructions`; the fields an opcode does not set are `none`. -/
structure PidataRecord where
  offset : Nat
  opcode : Nat
  count : Nat
  rawOffset : Option Nat
  dataLength : Option Nat
  commonSize : Option Nat
  customSize : Option Nat
  repeatCount : Option Nat
  reserved : Bool
  deriving DecidableEq, Repr

/-- The state of the loop of `pidata`. -/
structure PidataState where
  position : Nat
  output : List UInt8
  instructions : List PidataRecord
  counts : Dict Nat Nat

/-- The record of an instruction before its operands are read. -/
def PidataRecord.start (offset opcode count : Nat) : PidataRecord where
  offset := offset
  opcode := opcode
  count := count
  rawOffset := none
  dataLength := none
  commonSize := none
  customSize := none
  repeatCount := none
  reserved := false

/-- The interleaved output of opcode 3, without the last common block. -/
def interleave (packed common : List UInt8) (position custom repeats : Nat) : List UInt8 :=
  (List.range repeats).flatMap fun i =>
    common ++ slice packed (position + i * custom) (position + (i + 1) * custom)

/-- The interleaved output of opcode 4, without the last run of zeros. -/
def interleaveZeros (customData zeros : List UInt8) (custom repeats : Nat) : List UInt8 :=
  (List.range repeats).flatMap fun i =>
    zeros ++ slice customData (i * custom) ((i + 1) * custom)

/-- `sys.maxsize`: no sequence is longer. -/
def maxSize : Nat := 2 ^ 63 - 1

/-- `data * count`, which fails for a count or a length that is no index. -/
def repeatBytes (data : List UInt8) (count : Nat) : Except Exc (List UInt8) :=
  if count ≤ maxSize ∧ data.length * count ≤ maxSize then
    pure (List.replicate count data).flatten
  else throw .overflowError

/-- The operands of opcodes 3 and 4: the sizes of the common and custom parts, the number of
repeats, and the position after them. -/
def interleaveOperands (packed : List UInt8) (count position : Nat) :
    Except Exc (Nat × Nat × Nat × Nat) := do
  let (common, position) ← if count ≠ 0 then pure (count, position) else varint packed position
  let (custom, position) ← varint packed position
  let (repeats, position) ← varint packed position
  return (common, custom, repeats, position)

/-- The output an instruction appends, the position after it, and its record. -/
def pidataOperands (packed : List UInt8) (opcode count position : Nat) (record : PidataRecord) :
    Except Exc (List UInt8 × Nat × PidataRecord) :=
  match opcode with
  | 0 => do
    let zeros ← repeatBytes [0] count
    return (zeros, position, record)
  | 1 =>
    pure (slice packed position (position + count), position + count,
      { record with rawOffset := some position, dataLength := some count })
  | 2 => do
    let (repeats, position) ← varint packed position
    let data ← repeatBytes (slice packed position (position + count)) (repeats + 1)
    return (data, position + count,
      { record with repeatCount := some (repeats + 1), rawOffset := some position })
  | 3 => do
    let (common, custom, repeats, position) ← interleaveOperands packed count position
    let commonData := slice packed position (position + common)
    let start := position + common
    return (interleave packed commonData start custom repeats ++ commonData,
      start + custom * repeats,
      { record with
        commonSize := some common, customSize := some custom, repeatCount := some repeats
        rawOffset := some position })
  | 4 => do
    let (common, custom, repeats, position) ← interleaveOperands packed count position
    let customData := slice packed position (position + custom * repeats)
    let zeros ← repeatBytes [0] common
    return (interleaveZeros customData zeros custom repeats ++ zeros,
      position + custom * repeats,
      { record with
        commonSize := some common, customSize := some custom, repeatCount := some repeats
        rawOffset := some position })
  | _ => pure ([], position, { record with reserved := true })

/-- The body of the loop of `pidata`. -/
def pidataStep (packed : List UInt8) (s : PidataState) : Except Exc PidataState := do
  let byte := u8 packed s.position
  let opcode := byte >>> 5
  let inline_ := byte &&& 31
  let (count, position) ←
    if inline_ = 0 then varint packed (s.position + 1) else pure (inline_, s.position + 1)
  let (data, position, record) ←
    pidataOperands packed opcode count position (.start s.position opcode count)
  return {
    position := position
    output := s.output ++ data
    instructions := s.instructions ++ [record]
    counts := s.counts.set opcode ((s.counts.get? opcode).getD 0 + 1) }

/-- The loop of `pidata`, at most `fuel` times round. -/
def pidataLoop (packed : List UInt8) (unpackedSize : Nat) :
    Nat → PidataState → Except Exc PidataState
  | 0, s => pure s
  | fuel + 1, s =>
    if s.position < packed.length ∧ s.output.length < unpackedSize then do
      let s ← pidataStep packed s
      pidataLoop packed unpackedSize fuel s
    else pure s

/-- The state before the loop. -/
def PidataState.start : PidataState := ⟨0, [], [], .empty⟩

/-- The loop, and the check after it: what packed bytes expand to. -/
def expandPacked (packed : List UInt8) (unpackedSize : Nat) : Except Exc PidataState := do
  let s ← pidataLoop packed unpackedSize packed.length .start
  if s.output.length ≠ unpackedSize then
    throw (.pefError s!"PIDATA expanded {s.output.length} != unpackedSize {unpackedSize}")
  return s

/-! ## The loop ends by itself -/

theorem varintFrom_position : ∀ {bytes : List UInt8} {value pos n stop : Nat},
    varintFrom bytes value pos = .ok (n, stop) → pos < stop
  | [], _, _, _, _, h => by cases h
  | b :: rest, value, pos, n, stop, h => by
    rw [varintFrom] at h
    split at h
    · cases h
      exact Nat.lt_succ_self pos
    · have := varintFrom_position h
      omega

theorem varint_position {buf : List UInt8} {pos n stop : Nat} (h : varint buf pos = .ok (n, stop)) :
    pos < stop := varintFrom_position h

/-- The common size of opcodes 3 and 4 is read from `pos` on. -/
theorem interleaveOperands_position {packed : List UInt8} {count pos : Nat}
    {r : Nat × Nat × Nat × Nat} (h : interleaveOperands packed count pos = .ok r) :
    pos ≤ r.2.2.2 := by
  rw [interleaveOperands] at h
  split at h
  all_goals
    obtain ⟨⟨common, pos₁⟩, h₁, h⟩ := bind_eq_ok h
    obtain ⟨⟨custom, pos₂⟩, h₂, h⟩ := bind_eq_ok h
    obtain ⟨⟨repeats, pos₃⟩, h₃, h⟩ := bind_eq_ok h
    have hlt₂ := varint_position h₂
    have hlt₃ := varint_position h₃
    cases h
    show pos ≤ pos₃
  · cases h₁
    omega
  · have hlt₁ := varint_position h₁
    omega

theorem pidataOperands_position {packed : List UInt8} {opcode count pos : Nat}
    {record : PidataRecord} {r : List UInt8 × Nat × PidataRecord}
    (h : pidataOperands packed opcode count pos record = .ok r) : pos ≤ r.2.1 := by
  unfold pidataOperands at h
  split at h
  · obtain ⟨zeros, -, h⟩ := bind_eq_ok h
    cases h
    exact Nat.le_refl pos
  · cases h
    exact Nat.le_add_right pos count
  · obtain ⟨⟨repeats, pos₁⟩, h₁, h⟩ := bind_eq_ok h
    obtain ⟨data, -, h⟩ := bind_eq_ok h
    cases h
    have := varint_position h₁
    show pos ≤ pos₁ + count
    omega
  · obtain ⟨⟨common, custom, repeats, pos₁⟩, h₁, h⟩ := bind_eq_ok h
    cases h
    have hle : pos ≤ pos₁ := interleaveOperands_position h₁
    show pos ≤ pos₁ + common + custom * repeats
    omega
  · obtain ⟨⟨common, custom, repeats, pos₁⟩, h₁, h⟩ := bind_eq_ok h
    obtain ⟨zeros, -, h⟩ := bind_eq_ok h
    cases h
    have hle : pos ≤ pos₁ := interleaveOperands_position h₁
    show pos ≤ pos₁ + custom * repeats
    omega
  · cases h
    exact Nat.le_refl pos

/-- An instruction reads at least one byte. -/
theorem pidataStep_position {packed : List UInt8} {s s' : PidataState}
    (h : pidataStep packed s = .ok s') : s.position < s'.position := by
  rw [pidataStep] at h
  split at h
  all_goals
    obtain ⟨⟨count, pos⟩, h₁, h⟩ := bind_eq_ok h
    obtain ⟨⟨data, stop, record⟩, h₂, h⟩ := bind_eq_ok h
    have hle : pos ≤ stop := pidataOperands_position h₂
    cases h
    show s.position < stop
  · have hlt := varint_position h₁
    omega
  · cases h₁
    omega

/-- **The bound never ends the loop**: with as many rounds as there are bytes left, it returns when
its own condition fails. -/
theorem pidataLoop_done {packed : List UInt8} {unpackedSize fuel : Nat} {s s' : PidataState}
    (hf : packed.length ≤ s.position + fuel) (h : pidataLoop packed unpackedSize fuel s = .ok s') :
    ¬ (s'.position < packed.length ∧ s'.output.length < unpackedSize) := by
  induction fuel generalizing s with
  | zero =>
    cases h
    omega
  | succ fuel ih =>
    rw [pidataLoop] at h
    split at h
    · obtain ⟨s₁, hstep, h⟩ := bind_eq_ok h
      have := pidataStep_position hstep
      exact ih (by omega) h
    · rename_i hstop
      cases h
      exact hstop

/-- The dictionary `pidata` returns. -/
structure PidataResult where
  instructions : List PidataRecord
  opcodeCounts : Dict Nat Nat
  expanded : List UInt8
  unpackedSize : Nat
  totalSize : Nat
  packedSize : Option Nat

/-- The first pattern-initialised section. -/
def PEF.patternSection (p : PEF) : Option Section :=
  p.sections.find? fun s => decide (s.kind = .patternInitializedData)

/-- `pidata`. -/
def PEF.pidata (p : PEF) (expand : Bool) : Except Exc PidataResult :=
  match p.patternSection with
  | none =>
    pure { instructions := [], opcodeCounts := .empty, expanded := [], unpackedSize := 0,
           totalSize := 0, packedSize := none }
  | some section_ => do
    let packed ← p.rawSection section_.index
    let s ← expandPacked packed section_.unpackedSize
    let expanded := s.output ++ List.replicate (section_.totalSize - s.output.length) 0
    return {
      instructions := s.instructions
      opcodeCounts := s.counts
      expanded := if expand then expanded else []
      unpackedSize := section_.unpackedSize
      totalSize := section_.totalSize
      packedSize := some section_.packedSize }

/-- `bytes.ljust(size, b"\0")` of `bytes[:size]`. -/
def fit (size : Nat) (bytes : List UInt8) : List UInt8 :=
  bytes.take size ++ List.replicate (size - (bytes.take size).length) 0

/-- `section_image`. -/
def PEF.sectionImage (p : PEF) (index : Nat) : Except Exc (List UInt8) :=
  match p.sections[index]? with
  | none => throw .indexError
  | some section_ => do
    let image ←
      if section_.kind = .patternInitializedData then do
        let result ← p.pidata true
        pure result.expanded
      else p.rawSection index
    return fit section_.totalSize image

end Cwhost.Pef
