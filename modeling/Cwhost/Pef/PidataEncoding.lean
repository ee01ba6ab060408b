import Cwhost.Pef.Pidata
import Mathlib.Data.List.Forall2
import Mathlib.Data.Nat.Bitwise
import Mathlib.Tactic.Ring

/-!
# Decoding pattern-initialised data undoes encoding it

`PidataInstr` is what an instruction says, `PidataInstr.output` what it appends, and
`Encodes i bytes` that `bytes` is one of its byte encodings: a first count of 1 to 31 may stand in
the instruction byte, any count may follow as a big-endian base-128 number, with leading zero
groups or without.

* `varint_encoded`, `pidataStep_encoded`: reading one number and one instruction back.
* `expandPacked_encoded`: expanding a concatenation of encodings.
* `pidata_encoded`: the same for the container's pattern section.
-/

namespace Cwhost.Pef

open Lib

/-- The value of 7-bit groups, most significant first. -/
def groupsValue (bytes : List UInt8) (value : Nat) : Nat :=
  bytes.foldl (fun v b => v * 128 + b.toNat % 128) value

/-- `bytes` is a variable-length encoding of `n`: groups with the high bit set and a last group
without it. -/
def IsVarint (n : Nat) (bytes : List UInt8) : Prop :=
  ∃ groups last, bytes = groups ++ [last] ∧ (∀ b ∈ groups, 128 ≤ b.toNat) ∧ last.toNat < 128 ∧
    groupsValue bytes 0 = n

/-- A pattern-data instruction. -/
inductive PidataInstr
  /-- `n` zero bytes. -/
  | zero (n : Nat)
  /-- A copy of a block. -/
  | block (data : List UInt8)
  /-- A block, `k` times. -/
  | repeated (data : List UInt8) (k : Nat)
  /-- A common block between and around custom blocks of `size` bytes. -/
  | interleaved (common : List UInt8) (size : Nat) (custom : List (List UInt8))
  /-- `n` zero bytes between and around custom blocks of `size` bytes. -/
  | interleavedZero (n : Nat) (size : Nat) (custom : List (List UInt8))

/-- The bytes an instruction stands for. -/
def PidataInstr.output : PidataInstr → List UInt8
  | .zero n => List.replicate n 0
  | .block data => data
  | .repeated data k => (List.replicate k data).flatten
  | .interleaved common _ custom => (custom.flatMap fun block => common ++ block) ++ common
  | .interleavedZero n _ custom =>
    (custom.flatMap fun block => List.replicate n 0 ++ block) ++ List.replicate n 0

/-- The instruction byte with the first count `n`, in its low five bits or after it. -/
inductive Header (opcode n : Nat) : List UInt8 → Prop
  | short : 1 ≤ n → n ≤ 31 → Header opcode n [UInt8.ofNat (opcode * 32 + n)]
  | long {v : List UInt8} : 1 ≤ n → IsVarint n v → Header opcode n (UInt8.ofNat (opcode * 32) :: v)

/-- **The legal encodings** of an instruction. -/
inductive Encodes : PidataInstr → List UInt8 → Prop
  | zero {n : Nat} {h : List UInt8} : Header 0 n h → Encodes (.zero n) h
  | block {data h : List UInt8} : Header 1 data.length h → Encodes (.block data) (h ++ data)
  | repeated {data h v : List UInt8} {k : Nat} : Header 2 data.length h → IsVarint k v →
    Encodes (.repeated data (k + 1)) (h ++ v ++ data)
  | interleaved {common h v w : List UInt8} {size : Nat} {custom : List (List UInt8)} :
    Header 3 common.length h → IsVarint size v → IsVarint custom.length w →
    (∀ block ∈ custom, block.length = size) →
    Encodes (.interleaved common size custom) (h ++ v ++ w ++ common ++ custom.flatten)
  | interleavedZero {h v w : List UInt8} {n size : Nat} {custom : List (List UInt8)} :
    Header 4 n h → IsVarint size v → IsVarint custom.length w →
    (∀ block ∈ custom, block.length = size) →
    Encodes (.interleavedZero n size custom) (h ++ v ++ w ++ custom.flatten)

/-! ## Numbers -/

/-- One round of `varint` in arithmetic. -/
theorem shift_or_eq (value : Nat) (b : UInt8) :
    value <<< 7 ||| (b.toNat &&& 0x7F) = value * 128 + b.toNat % 128 := by
  have hlow : b.toNat &&& 0x7F = b.toNat % 128 := Nat.and_two_pow_sub_one_eq_mod b.toNat 7
  have hlt : b.toNat % 128 < 2 ^ 7 := Nat.mod_lt _ (by decide)
  rw [hlow, ← Nat.shiftLeft_add_eq_or_of_lt hlt, Nat.shiftLeft_eq]

/-- The high bit is set exactly on continued groups. -/
theorem high_bit_eq_zero_iff (b : UInt8) : b.toNat &&& 0x80 = 0 ↔ b.toNat < 128 := by
  have hand := Nat.and_two_pow b.toNat 7
  rw [show (2 : Nat) ^ 7 = 0x80 from rfl] at hand
  have hbit : b.toNat.testBit 7 = decide (128 ≤ b.toNat) := by
    rw [Nat.testBit_eq_decide_div_mod_eq]
    have := b.toNat_lt
    congr 1
    exact propext (by omega)
  rw [hand, hbit]
  by_cases h : 128 ≤ b.toNat
  · rw [decide_eq_true h]
    simp
    omega
  · rw [decide_eq_false h]
    simp
    omega

theorem varintFrom_encoded (last : UInt8) (hl : last.toNat < 128) (post : List UInt8)
    (groups : List UInt8) (hg : ∀ b ∈ groups, 128 ≤ b.toNat) (value pos : Nat) :
    varintFrom (groups ++ last :: post) value pos =
      .ok (groupsValue (groups ++ [last]) value, pos + groups.length + 1) := by
  induction groups generalizing value pos with
  | nil =>
    rw [List.nil_append, varintFrom]
    simp only [shift_or_eq]
    rw [if_pos ((high_bit_eq_zero_iff last).mpr hl)]
    rfl
  | cons b groups ih =>
    have hb := hg b List.mem_cons_self
    rw [List.cons_append, varintFrom]
    simp only [shift_or_eq]
    rw [if_neg (fun h => by have := (high_bit_eq_zero_iff b).mp h; omega),
      ih fun c hc => hg c (List.mem_cons_of_mem _ hc)]
    rw [List.length_cons, show pos + 1 + groups.length + 1 = pos + (groups.length + 1) + 1 by omega]
    rfl

/-- **Reading a number back.** -/
theorem varint_encoded {n : Nat} {v : List UInt8} (hv : IsVarint n v) {buf post : List UInt8}
    {pos : Nat} (h : buf.drop pos = v ++ post) : varint buf pos = .ok (n, pos + v.length) := by
  obtain ⟨groups, last, rfl, hg, hl, hn⟩ := hv
  rw [varint, h, List.append_assoc, List.singleton_append,
    varintFrom_encoded last hl post groups hg, hn, List.length_append, List.length_singleton,
    Nat.add_assoc]

/-! ## Slices of what is left -/

theorem u8_of_drop {buf post : List UInt8} {b : UInt8} {pos : Nat}
    (h : buf.drop pos = b :: post) : u8 buf pos = b.toNat := by
  have := @List.getElem?_drop UInt8 buf pos 0
  rw [h, Nat.add_zero] at this
  rw [u8, List.getD_eq_getElem?_getD, ← this]
  rfl

theorem interleave_encoded {packed common post : List UInt8} {size pos : Nat}
    {custom : List (List UInt8)} (h : packed.drop pos = custom.flatten ++ post)
    (hs : ∀ block ∈ custom, block.length = size) :
    interleave packed common pos size custom.length =
      custom.flatMap fun block => common ++ block := by
  conv_rhs => rw [← chunks_eq custom h hs]
  rw [List.flatMap_map]
  rfl

theorem interleaveZeros_encoded {n size : Nat} {custom : List (List UInt8)}
    (hs : ∀ block ∈ custom, block.length = size) :
    interleaveZeros custom.flatten (List.replicate n 0) size custom.length =
      custom.flatMap fun block => List.replicate n 0 ++ block := by
  have h : custom.flatten.drop 0 = custom.flatten ++ [] := by rw [List.drop_zero, List.append_nil]
  conv_rhs => rw [← chunks_eq custom h hs]
  rw [List.flatMap_map]
  simp only [Nat.zero_add]
  rfl

/-! ## Repetitions -/

theorem repeatBytes_ok {data : List UInt8} {count : Nat} (hc : count ≤ maxSize)
    (hl : data.length * count ≤ maxSize) :
    repeatBytes data count = .ok (List.replicate count data).flatten := if_pos ⟨hc, hl⟩

theorem repeatBytes_zero {count : Nat} (h : count ≤ maxSize) :
    repeatBytes [0] count = .ok (List.replicate count 0) := by
  rw [repeatBytes_ok h (by rw [List.length_singleton, Nat.one_mul]; exact h),
    List.flatten_replicate_singleton]

/-! ## Instructions -/

theorem Header.pos {opcode n : Nat} {h : List UInt8} (hh : Header opcode n h) : 0 < n := by
  cases hh with
  | short h1 _ => exact h1
  | long h1 _ => exact h1

/-- The opcode and the low five bits of an instruction byte. -/
theorem instruction_byte {opcode n : Nat} (hop : opcode < 8) (hn : n ≤ 31) :
    (UInt8.ofNat (opcode * 32 + n)).toNat >>> 5 = opcode ∧
      (UInt8.ofNat (opcode * 32 + n)).toNat &&& 31 = n := by
  have hb : (UInt8.ofNat (opcode * 32 + n)).toNat = opcode * 32 + n := by
    rw [UInt8.toNat_ofNat']
    omega
  have hand : (opcode * 32 + n) &&& 31 = (opcode * 32 + n) % 32 :=
    Nat.and_two_pow_sub_one_eq_mod _ 5
  rw [hb, Nat.shiftRight_eq_div_pow, hand]
  omega

/-- **Reading the first count back.** -/
theorem header_encoded {opcode n : Nat} {h packed post : List UInt8} (hh : Header opcode n h)
    (hop : opcode < 8) {s : PidataState} (hd : packed.drop s.position = h ++ post) :
    pidataStep packed s = (do
      let (data, position, record) ←
        pidataOperands packed opcode n (s.position + h.length) (.start s.position opcode n)
      return {
        position := position
        output := s.output ++ data
        instructions := s.instructions ++ [record]
        counts := s.counts.set opcode ((s.counts.get? opcode).getD 0 + 1) }) := by
  cases hh with
  | short h1 h31 =>
    obtain ⟨hshift, hlow⟩ := instruction_byte hop h31
    simp only [pidataStep, u8_of_drop hd, hshift, hlow]
    rw [if_neg (by omega)]
    rfl
  | @long v h1 hv =>
    obtain ⟨hshift, hlow⟩ := instruction_byte hop (Nat.zero_le 31)
    rw [Nat.add_zero] at hshift hlow
    have hd' : packed.drop (s.position + 1) = v ++ post := drop_of_drop (x := [_]) hd
    simp only [pidataStep, u8_of_drop hd, hshift, hlow, if_true, varint_encoded hv hd']
    rw [List.length_cons, Nat.add_right_comm, Nat.add_assoc s.position]
    rfl

/-- The two operands after the first count. -/
theorem operands_encoded {n size r : Nat} {v w packed post : List UInt8} {pos : Nat}
    (hn : 0 < n) (hv : IsVarint size v) (hw : IsVarint r w)
    (hd : packed.drop pos = v ++ (w ++ post)) :
    interleaveOperands packed n pos = .ok (n, size, r, pos + v.length + w.length) := by
  simp only [interleaveOperands]
  rw [if_pos (by omega)]
  show (varint packed pos >>= _) = _
  rw [varint_encoded hv hd]
  show (varint packed (pos + v.length) >>= _) = _
  rw [varint_encoded hw (drop_of_drop hd)]
  rfl

/-- What one round of the loop does with an encoded instruction. -/
structure Decoded (s s' : PidataState) (bytes output : List UInt8) : Prop where
  position : s'.position = s.position + bytes.length
  output : s'.output = s.output ++ output

/-- **Reading an instruction back.** -/
theorem pidataStep_encoded {i : PidataInstr} {bytes packed post : List UInt8} {s : PidataState}
    (hi : Encodes i bytes) (hmax : i.output.length ≤ maxSize)
    (hd : packed.drop s.position = bytes ++ post) :
    ∃ s', pidataStep packed s = .ok s' ∧ Decoded s s' bytes i.output := by
  cases hi with
  | @zero n h hh =>
    have hn : n ≤ maxSize := by simpa [PidataInstr.output] using hmax
    rw [header_encoded hh (by decide) hd]
    simp only [pidataOperands, repeatBytes_zero hn]
    exact ⟨_, rfl, rfl, rfl⟩
  | @block data h hh =>
    rw [List.append_assoc] at hd
    rw [header_encoded hh (by decide) hd]
    have hslice := slice_of_drop (drop_of_drop hd)
    exact ⟨_, rfl, by simp [Nat.add_assoc], congrArg (s.output ++ ·) hslice⟩
  | @repeated data h v k hh hv =>
    rw [List.append_assoc, List.append_assoc] at hd
    rw [header_encoded hh (by decide) hd]
    have hd₁ := drop_of_drop hd
    have hd₂ := drop_of_drop hd₁
    have hslice := slice_of_drop hd₂
    have hlen : (PidataInstr.repeated data (k + 1)).output.length = data.length * (k + 1) := by
      rw [PidataInstr.output, List.length_flatten, List.map_replicate,
        List.sum_replicate_nat, Nat.mul_comm]
    rw [hlen] at hmax
    have hcount : k + 1 ≤ data.length * (k + 1) := Nat.le_mul_of_pos_left _ hh.pos
    simp only [pidataOperands, varint_encoded hv hd₁]
    show ∃ s', (repeatBytes (slice packed _ _) _ >>= _) >>= _ = Except.ok s' ∧ _
    rw [hslice, repeatBytes_ok (hcount.trans hmax) hmax]
    refine ⟨_, rfl, ?_, rfl⟩
    simp only [List.length_append]
    omega
  | @interleaved common h v w size custom hh hv hw hs =>
    simp only [List.append_assoc] at hd
    rw [header_encoded hh (by decide) hd]
    have hd₁ := drop_of_drop hd
    have hd₂ := drop_of_drop (drop_of_drop hd₁)
    have hcommon := slice_of_drop hd₂
    have hinter : interleave packed common _ size custom.length = _ :=
      interleave_encoded (drop_of_drop hd₂) hs
    simp only [pidataOperands, operands_encoded hh.pos hv hw hd₁]
    refine ⟨_, rfl, ?_, ?_⟩
    · simp only [List.length_append, length_flatten_of_size hs]
      omega
    · show s.output ++ (interleave packed (slice packed _ _) _ _ _ ++ slice packed _ _) = _
      rw [hcommon, hinter]
      rfl
  | @interleavedZero h v w n size custom hh hv hw hs =>
    simp only [List.append_assoc] at hd
    rw [header_encoded hh (by decide) hd]
    have hd₁ := drop_of_drop hd
    have hd₂ := drop_of_drop (drop_of_drop hd₁)
    have hcustom := slice_of_drop hd₂
    have hn : n ≤ maxSize := by
      simp only [PidataInstr.output, List.length_append, List.length_replicate] at hmax
      omega
    rw [length_flatten_of_size hs] at hcustom
    simp only [pidataOperands, operands_encoded hh.pos hv hw hd₁]
    show ∃ s', (repeatBytes [0] n >>= _) >>= _ = Except.ok s' ∧ _
    rw [repeatBytes_zero hn]
    refine ⟨_, rfl, ?_, ?_⟩
    · simp only [List.length_append, length_flatten_of_size hs]
      omega
    · show s.output ++ (interleaveZeros (slice packed _ _) _ _ _ ++ List.replicate n 0) = _
      rw [hcustom, interleaveZeros_encoded hs]
      rfl

/-! ## Whole sections -/

theorem Header.ne_nil {opcode n : Nat} {h : List UInt8} (hh : Header opcode n h) : h ≠ [] := by
  cases hh <;> simp

/-- An encoding has at least one byte. -/
theorem Encodes.ne_nil {i : PidataInstr} {bytes : List UInt8} (h : Encodes i bytes) :
    bytes ≠ [] := by
  cases h with
  | zero hh => exact hh.ne_nil
  | block hh => simp [hh.ne_nil]
  | repeated hh _ => simp [hh.ne_nil]
  | interleaved hh _ _ _ => simp [hh.ne_nil]
  | interleavedZero hh _ _ _ => simp [hh.ne_nil]

/-- An instruction appends at least one byte, so the loop cannot stop before the last one. -/
theorem Encodes.output_pos {i : PidataInstr} {bytes : List UInt8} (h : Encodes i bytes) :
    0 < i.output.length := by
  cases h with
  | zero hh => simpa [PidataInstr.output] using hh.pos
  | block hh => exact hh.pos
  | @repeated data _ _ k hh _ =>
    have := hh.pos
    simp only [PidataInstr.output, List.replicate_succ, List.flatten_cons, List.length_append]
    omega
  | interleaved hh _ _ _ =>
    have := hh.pos
    simp only [PidataInstr.output, List.length_append]
    omega
  | interleavedZero hh _ _ _ =>
    have := hh.pos
    simp only [PidataInstr.output, List.length_append, List.length_replicate]
    omega

/-- The bytes all instructions of a list stand for. -/
def outputs (is : List PidataInstr) : List UInt8 := is.flatMap PidataInstr.output

/-- **The loop** decodes a concatenation of encodings, from any point of it on. -/
theorem pidataLoop_encoded {packed : List UInt8} {unpackedSize : Nat} :
    ∀ {is : List PidataInstr} {encodings : List (List UInt8)}, List.Forall₂ Encodes is encodings →
    ∀ {s : PidataState} {fuel : Nat}, packed.drop s.position = encodings.flatten →
    s.output.length + (outputs is).length = unpackedSize → unpackedSize ≤ maxSize →
    encodings.flatten.length ≤ fuel →
    ∃ s', pidataLoop packed unpackedSize fuel s = .ok s' ∧ s'.output = s.output ++ outputs is := by
  intro is encodings h
  induction h with
  | nil =>
    intro s fuel hd _ _ _
    refine ⟨s, ?_, (List.append_nil _).symm⟩
    cases fuel with
    | zero => rfl
    | succ fuel =>
      have hlen := List.drop_eq_nil_iff.mp hd
      rw [pidataLoop, if_neg (by omega)]
      rfl
  | @cons i bytes is encodings hi his ih =>
    intro s fuel hd hun hmax hf
    rw [List.flatten_cons] at hd hf
    rw [List.length_append] at hf
    have hpos : 0 < bytes.length := List.length_pos_of_ne_nil hi.ne_nil
    have hout := hi.output_pos
    have hcat : outputs (i :: is) = i.output ++ outputs is := List.flatMap_cons
    rw [hcat, List.length_append] at hun
    obtain ⟨f, rfl⟩ : ∃ f, fuel = f + 1 := ⟨fuel - 1, by omega⟩
    obtain ⟨s₁, hstep, hdec⟩ := pidataStep_encoded hi (by omega) hd
    have hin : s.position < packed.length := by
      have := congrArg List.length hd
      rw [List.length_drop, List.length_append] at this
      omega
    have hd₁ : packed.drop s₁.position = encodings.flatten := by
      rw [hdec.position]
      exact drop_of_drop hd
    have hun₁ : s₁.output.length + (outputs is).length = unpackedSize := by
      rw [hdec.output, List.length_append]
      omega
    obtain ⟨s', hloop, hs'⟩ := ih hd₁ hun₁ hmax (show _ ≤ f by omega)
    refine ⟨s', ?_, ?_⟩
    · rw [pidataLoop, if_pos ⟨hin, by omega⟩, hstep]
      exact hloop
    · rw [hs', hdec.output, hcat, List.append_assoc]

/-- **Expanding a concatenation of encodings.** -/
theorem expandPacked_encoded {is : List PidataInstr} {encodings : List (List UInt8)}
    (h : List.Forall₂ Encodes is encodings) (hmax : (outputs is).length ≤ maxSize) :
    ∃ s, expandPacked encodings.flatten (outputs is).length = .ok s ∧ s.output = outputs is := by
  obtain ⟨s, hloop, hs⟩ : ∃ s, pidataLoop encodings.flatten (outputs is).length
      encodings.flatten.length .start = .ok s ∧ s.output = [] ++ outputs is :=
    pidataLoop_encoded h rfl (Nat.zero_add _) hmax (le_refl _)
  refine ⟨s, ?_, hs⟩
  rw [expandPacked, hloop]
  show (if s.output.length ≠ _ then _ else _) = _
  rw [hs]
  exact if_neg (not_not.mpr rfl)

/-- **Pattern data decodes to what was encoded**: if the packed bytes of the first
pattern-initialised section of an accepted container are an encoding of the instructions, and its
sizes are those of their output, `pidata` returns that output followed by zeros. -/
theorem pidata_encoded {data : List UInt8} {p : PEF} (hinit : PEF.init data = .ok p)
    {section_ : Section} (hfirst : p.patternSection = some section_) {is : List PidataInstr}
    {encodings : List (List UInt8)} (henc : List.Forall₂ Encodes is encodings)
    (hpacked : sectionBytes p.data section_ = .ok encodings.flatten)
    (hunpacked : section_.unpackedSize = (outputs is).length)
    (htotal : section_.unpackedSize ≤ section_.totalSize) :
    ∃ r, p.pidata true = .ok r ∧
      r.expanded = outputs is ++ List.replicate (section_.totalSize - (outputs is).length) 0 ∧
      r.expanded.length = section_.totalSize := by
  have hmem : section_ ∈ p.sections := List.mem_of_find?_eq_some hfirst
  have hmax : (outputs is).length ≤ maxSize := by
    have hsize := PEF.init_unpackedSize hinit hmem
    unfold maxSize
    omega
  obtain ⟨s, hexp, hout⟩ := expandPacked_encoded henc hmax
  have hpidata : p.pidata true = .ok {
      instructions := s.instructions
      opcodeCounts := s.counts
      expanded := s.output ++ List.replicate (section_.totalSize - s.output.length) 0
      unpackedSize := section_.unpackedSize
      totalSize := section_.totalSize
      packedSize := some section_.packedSize } := by
    rw [PEF.pidata, hfirst]
    show (p.rawSection section_.index >>= _) = _
    rw [PEF.rawSection_eq hinit hmem, hpacked]
    show (expandPacked encodings.flatten section_.unpackedSize >>= _) = _
    rw [hunpacked, hexp]
    rfl
  refine ⟨_, hpidata, by rw [hout], ?_⟩
  show (s.output ++ _).length = _
  rw [List.length_append, List.length_replicate, hout]
  omega

/-- The packed bytes of one instruction of each opcode. -/
def fivePacked : List UInt8 :=
  [0x22, 0xAA, 0xBB, 0x41, 1, 0xCC, 0x61, 1, 2, 1, 2, 3, 0x81, 1, 1, 4, 0x00, 1]

/-- A container with one pattern-initialised section. -/
def fivePatterns : List UInt8 :=
  PEF.joy ++ PEF.peff ++ List.replicate 24 0 ++ [0, 1] ++ List.replicate 6 0 ++
    (List.replicate 8 0 ++ [0, 0, 0, 15] ++ [0, 0, 0, 13] ++ [0, 0, 0, 18] ++ [0, 0, 0, 68] ++
      [2, 0, 0, 0]) ++
    fivePacked

/-- Its section. -/
def fivePatternsSection : Section := ⟨0, .patternInitializedData, 0, 15, 13, 18, 68, 1⟩

/-- What `PEF.init` makes of it. -/
def fivePatternsPef : PEF where
  data := fivePatterns
  sections := [fivePatternsSection]
  loader := []
  loaderHeader := none
  libraries := []
  imports := []
  relocHeaders := []

set_option maxRecDepth 4000 in
theorem fivePatterns_init : PEF.init fivePatterns = .ok fivePatternsPef := rfl

theorem isVarint_one (n : UInt8) (h : n.toNat < 128) : IsVarint n.toNat [n] :=
  ⟨[], n, rfl, by simp, h, by simp [groupsValue, Nat.mod_eq_of_lt h]⟩

/-- Its instructions and their encodings, the last with its count as a number. -/
theorem fivePatterns_encodes :
    List.Forall₂ Encodes
      [.block [0xAA, 0xBB], .repeated [0xCC] 2, .interleaved [1] 1 [[2], [3]],
        .interleavedZero 1 1 [[4]], .zero 1]
      [[0x22, 0xAA, 0xBB], [0x41, 1, 0xCC], [0x61, 1, 2, 1, 2, 3], [0x81, 1, 1, 4], [0x00, 1]] := by
  have hone : ∀ opcode, Header opcode 1 [UInt8.ofNat (opcode * 32 + 1)] := fun _ =>
    .short (by decide) (by decide)
  refine .cons ?_ (.cons ?_ (.cons ?_ (.cons ?_ (.cons ?_ .nil))))
  · exact Encodes.block (h := [0x22]) (.short (by decide) (by decide))
  · exact Encodes.repeated (h := [0x41]) (v := [1]) (hone 2) (isVarint_one 1 (by decide))
  · exact Encodes.interleaved (h := [0x61]) (v := [1]) (w := [2]) (hone 3)
      (isVarint_one 1 (by decide)) (isVarint_one 2 (by decide)) (by decide)
  · exact Encodes.interleavedZero (h := [0x81]) (v := [1]) (w := [1]) (hone 4)
      (isVarint_one 1 (by decide)) (isVarint_one 1 (by decide)) (by decide)
  · exact Encodes.zero (.long (by decide) (isVarint_one 1 (by decide)))

theorem pidata_encoded_fivePatterns : ∃ r, fivePatternsPef.pidata true = .ok r ∧
    r.expanded = [0xAA, 0xBB, 0xCC, 0xCC, 1, 2, 1, 3, 1, 0, 4, 0, 0, 0, 0] ∧
    r.expanded.length = 15 :=
  pidata_encoded fivePatterns_init rfl fivePatterns_encodes rfl rfl (by decide)

end Cwhost.Pef
