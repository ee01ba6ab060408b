import Cwhost.Pef.Reloc
import Mathlib.Data.List.Infix

/-!
# The repeat-free meaning of a relocation stream

What a stream means, without a history and without an interpreter that executes while it
decodes: the stream is decoded into a list of instructions, every repeat is replaced by copies
of the instructions before it, and the resulting list is run as a left fold. Each of the three
passes may fail, and the whole fails when one does. Nothing of the interpreter is used but the
types of its state and of its arguments: the instructions are read off the bytes by the numeric
ranges of their opcodes.

* `decode`, `expand`, `step`: the three passes; `reference` composes them.
* `blockBefore_eq_some_iff`: the block a repeat refers to is the one list of whole instructions
  right before it with exactly the given number of words.
-/

namespace Cwhost.Pef

open Lib

/-- An instruction that is not a repeat. -/
inductive Plain
  | skip (words count : Nat)
  | byC (count : Nat)
  | byD (count : Nat)
  | tv12 (count : Nat)
  | tv8 (count : Nat)
  | vtable8 (count : Nat)
  | importRun (count : Nat)
  | importAt (index : Nat)
  | setC (index : Nat)
  | setD (index : Nat)
  | addSection (index : Nat)
  | incr (amount : Nat)
  | setPosition (offset : Nat)
  deriving DecidableEq, Repr

/-- A decoded instruction, of one word or (`wide`) of two. -/
inductive Instr
  | plain (p : Plain) (wide : Bool)
  /-- `count` more times the instructions of the last `blockWords` words. -/
  | again (blockWords count : Nat) (wide : Bool)
  deriving DecidableEq, Repr

/-- The encoded length in words. -/
def Instr.words : Instr → Nat
  | .plain _ wide | .again _ _ wide => if wide then 2 else 1

theorem Instr.words_pos (i : Instr) : 0 < i.words := by
  unfold words
  split <;> split <;> decide

/-- The instruction, unless it is a repeat. -/
def Instr.plain? : Instr → Option Plain
  | .plain p _ => some p
  | .again .. => none

/-- The instructions of one word, by the ranges of their opcodes. -/
def shortInstr (word : Nat) : Option Instr :=
  if word < 0x4000 then some (.plain (.skip (word / 64 % 256) (word % 64)) false)
  else if word < 0x4200 then some (.plain (.byC (word % 512 + 1)) false)
  else if word < 0x4400 then some (.plain (.byD (word % 512 + 1)) false)
  else if word < 0x4600 then some (.plain (.tv12 (word % 512 + 1)) false)
  else if word < 0x4800 then some (.plain (.tv8 (word % 512 + 1)) false)
  else if word < 0x4A00 then some (.plain (.vtable8 (word % 512 + 1)) false)
  else if word < 0x4C00 then some (.plain (.importRun (word % 512 + 1)) false)
  else if word < 0x6000 then none
  else if word < 0x6200 then some (.plain (.importAt (word % 512)) false)
  else if word < 0x6400 then some (.plain (.setC (word % 512)) false)
  else if word < 0x6600 then some (.plain (.setD (word % 512)) false)
  else if word < 0x6800 then some (.plain (.addSection (word % 512)) false)
  else if word < 0x8000 then none
  else if word < 0x9000 then some (.plain (.incr (word % 4096 + 1)) false)
  else if word < 0xA000 then some (.again (word / 256 % 16 + 1) (word % 256 + 1) false)
  else none

/-- The instructions of two words. -/
def longInstr (word next : Nat) : Option Instr :=
  if word < 0xA000 then none
  else if word < 0xA400 then some (.plain (.setPosition (word % 1024 * 65536 + next)) true)
  else if word < 0xA800 then some (.plain (.importAt (word % 1024 * 65536 + next)) true)
  else if word < 0xB000 then none
  else if word < 0xB400 then
    some (.again (word / 64 % 16 + 1) (word % 64 * 65536 + next) true)
  else if word < 0xB440 then some (.plain (.addSection (word % 64 * 65536 + next)) true)
  else if word < 0xB480 then some (.plain (.setC (word % 64 * 65536 + next)) true)
  else if word < 0xB4C0 then some (.plain (.setD (word % 64 * 65536 + next)) true)
  else none

/-- A big-endian word of the stream. -/
def wordOf (hi lo : UInt8) : Nat := hi.toNat * 256 + lo.toNat

/-- **The instructions of a stream**, two bytes a word; `none` for a bad opcode, a last instruction
that is cut off, or half a word. -/
def decode : List UInt8 → Option (List Instr)
  | [] => some []
  | [_] => none
  | hi :: lo :: rest =>
    match shortInstr (wordOf hi lo) with
    | some i => (decode rest).map (i :: ·)
    | none =>
      match rest with
      | hi' :: lo' :: rest' =>
        (longInstr (wordOf hi lo) (wordOf hi' lo')).bind fun i => (decode rest').map (i :: ·)
      | _ => none

/-- The instructions at the end of `before` that make up exactly `n` words. -/
def blockBefore (n : Nat) (before : List Instr) : Option (List Instr) :=
  before.tails.find? fun block => decide ((block.map Instr.words).sum = n)

/-- `count` copies of a block; a block that is copied must not contain a repeat. -/
def copies (block : List Instr) (count : Nat) : Option (List Plain) :=
  if count = 0 then some []
  else (block.mapM Instr.plain?).map fun ps => (List.replicate count ps).flatten

/-- What an instruction after the instructions `before` stands for. -/
def expandOne (before : List Instr) : Instr → Option (List Plain)
  | .plain p _ => some [p]
  | .again n count _ => (blockBefore n before).bind fun block => copies block count

/-- The repeat-free list of a list of instructions after the instructions `before`. -/
def expand (before : List Instr) : List Instr → Option (List Plain)
  | [] => some []
  | i :: rest =>
    (expandOne before i).bind fun ps => (expand (before ++ [i]) rest).map (ps ++ ·)

/-- Add `value` to the big-endian word at the position and move on by `gap` bytes. -/
def addMove (value : Int) (gap : Nat) (s : RelocState) : Option RelocState :=
  if s.pos + 4 ≤ s.section_.length then
    let old := beNat ((s.section_.drop s.pos).take 4)
    some { s with
      section_ := s.section_.take s.pos ++ toBE 4 ((old + value) % 2 ^ 32).toNat ++
        s.section_.drop (s.pos + 4)
      pos := s.pos + gap }
  else none

/-- The meaning of a repeat-free instruction. -/
def step (env : RelocEnv) (s : RelocState) : Plain → Option RelocState
  | .skip words count =>
    times (fun s => addMove s.currentD 4 s) count { s with pos := s.pos + 4 * words }
  | .byC count => times (addMove s.currentC 4) count s
  | .byD count => times (addMove s.currentD 4) count s
  | .tv12 count =>
    times (fun s => (addMove s.currentC 4 s).bind fun s => addMove s.currentD 8 s) count s
  | .tv8 count =>
    times (fun s => (addMove s.currentC 4 s).bind fun s => addMove s.currentD 4 s) count s
  | .vtable8 count => times (fun s => addMove s.currentD 8 s) count s
  | .importRun count =>
    times (fun s => env.imports[s.importIndex]?.bind fun value =>
      (addMove value 4 s).map fun s => { s with importIndex := s.importIndex + 1 }) count s
  | .importAt index =>
    env.imports[index]?.bind fun value =>
      (addMove value 4 s).map fun s => { s with importIndex := index + 1 }
  | .setC index => env.sectionDeltas[index]?.map fun value => { s with currentC := value }
  | .setD index => env.sectionDeltas[index]?.map fun value => { s with currentD := value }
  | .addSection index => env.sectionDeltas[index]?.bind fun value => addMove value 4 s
  | .incr amount => some { s with pos := s.pos + amount }
  | .setPosition offset => some { s with pos := offset }

/-- **The reference**: decode, expand, fold. -/
def reference (image stream : List UInt8) (env : RelocEnv) (initialC initialD : Int) :
    Option (List UInt8) := do
  let instrs ← decode stream
  let plains ← expand [] instrs
  let final ← plains.foldlM (step env)
    { section_ := image, pos := 0, importIndex := 0, currentC := initialC, currentD := initialD }
  return final.section_

/-! ## The block of a repeat -/

theorem sum_words_le_of_suffix {t l : List Instr} (h : t <:+ l) :
    (t.map Instr.words).sum ≤ (l.map Instr.words).sum := by
  obtain ⟨p, rfl⟩ := h
  rw [List.map_append, List.sum_append]
  omega

/-- Two blocks that end at the same place and have as many words are the same. -/
theorem eq_of_suffix_of_sum_eq {t u : List Instr} (h : t <:+ u)
    (hs : (t.map Instr.words).sum = (u.map Instr.words).sum) : t = u := by
  obtain ⟨p, rfl⟩ := h
  cases p with
  | nil => rfl
  | cons i p =>
    have := i.words_pos
    simp only [List.cons_append, List.map_cons, List.map_append, List.sum_cons,
      List.sum_append] at hs
    omega

/-- **The block of a repeat** is unique. -/
theorem blockBefore_eq_some_iff {n : Nat} {before block : List Instr} :
    blockBefore n before = some block ↔
      block <:+ before ∧ (block.map Instr.words).sum = n := by
  have hsound : ∀ {b}, blockBefore n before = some b → b <:+ before ∧ (b.map Instr.words).sum = n :=
    fun h => ⟨(List.mem_tails _ _).mp (List.mem_of_find?_eq_some h),
      by simpa using List.find?_some h⟩
  refine ⟨hsound, ?_⟩
  rintro ⟨hsuf, hsum⟩
  cases hb : blockBefore n before with
  | none =>
    have := List.find?_eq_none.mp hb block ((List.mem_tails _ _).mpr hsuf)
    exact absurd hsum (by simpa using this)
  | some b =>
    obtain ⟨hsuf', hsum'⟩ := hsound hb
    rcases List.suffix_or_suffix_of_suffix hsuf hsuf' with h | h
    · rw [eq_of_suffix_of_sum_eq h (hsum.trans hsum'.symm)]
    · rw [eq_of_suffix_of_sum_eq h (hsum'.trans hsum.symm)]

/-- There is no block when the next longer one is already too long. -/
theorem blockBefore_eq_none {n : Nat} {before shorter longer : List Instr}
    (hi : ∀ t, t <:+ before →
      t <:+ shorter ∨ longer <:+ t) (h1 : (shorter.map Instr.words).sum < n)
    (h2 : n < (longer.map Instr.words).sum) : blockBefore n before = none := by
  cases hb : blockBefore n before with
  | none => rfl
  | some b =>
    obtain ⟨hsuf, hsum⟩ := blockBefore_eq_some_iff.mp hb
    rcases hi b hsuf with h | h
    · have := sum_words_le_of_suffix h
      omega
    · have := sum_words_le_of_suffix h
      omega

end Cwhost.Pef
