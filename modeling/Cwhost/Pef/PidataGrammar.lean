import Cwhost.Pef.PidataEncoding

/-!
# Which pattern data is rejected

The grammar of packed data: an instruction byte, a count after it exactly when its low five bits
are zero, the numbers of its opcode, and the raw bytes these call for.

* `readFront_sound`, `readFront_complete`: what `pidata` reads before the raw bytes. It follows the
  grammar, but for opcodes 3 and 4 with a count of zero, where it reads a further number.
* `pidataLoop_follows`, `Follows.loop`: the loop is a sequence of such readings, the raw bytes cut
  off silently at the end of the packed data.
* `Overruns.loop`, `pidataLoop_raises`: what else it raises is the `OverflowError` of a repetition.
* `pidata_grammatical_iff`: so what it accepts is grammatical, and what it rejects is a `PEFError`,
  exactly when no reading that fills the section meets a cut-off or a zero count, and none an
  overrun.

Out of scope: the memory of the machine (a repetition below `sys.maxsize` that finds none is a
`MemoryError`).
-/

namespace Cwhost.Pef

open Lib

/-! ## The grammar -/

/-- The numbers of an instruction: the count of its first byte, and those of its opcode. -/
structure Operands where
  opcode : Nat
  count : Nat
  common : Nat
  custom : Nat
  repeats : Nat
  deriving DecidableEq, Repr

namespace Operands

/-- The number of raw bytes. -/
def rawLength (o : Operands) : Nat :=
  match o.opcode with
  | 1 | 2 => o.count
  | 3 => o.common + o.custom * o.repeats
  | 4 => o.custom * o.repeats
  | _ => 0

/-- What the instruction appends, given its raw bytes. -/
def output (o : Operands) (raw : List UInt8) : List UInt8 :=
  match o.opcode with
  | 0 => List.replicate o.count 0
  | 1 => raw
  | 2 => (List.replicate (o.repeats + 1) raw).flatten
  | 3 => interleave raw (raw.take o.common) o.common o.custom o.repeats ++ raw.take o.common
  | 4 =>
    interleaveZeros raw (List.replicate o.common 0) o.custom o.repeats ++ List.replicate o.common 0
  | _ => []

/-- What is repeated to make the output, and the number of times, are within `sys.maxsize`. -/
def Fits (o : Operands) (raw : List UInt8) : Prop :=
  (o.opcode = 0 → o.count ≤ maxSize) ∧
    (o.opcode = 2 → o.repeats + 1 ≤ maxSize ∧ raw.length * (o.repeats + 1) ≤ maxSize) ∧
    (o.opcode = 4 → o.common ≤ maxSize)

instance (o : Operands) (raw : List UInt8) : Decidable (o.Fits raw) :=
  inferInstanceAs (Decidable (_ ∧ _ ∧ _))

/-- The output, where it can be made. -/
def expand (o : Operands) (raw : List UInt8) : Except Exc (List UInt8) :=
  if o.Fits raw then pure (o.output raw) else throw .overflowError

/-- The entry of `instructions` for an instruction at `offset` with raw bytes at `rawOffset`. -/
def record (o : Operands) (offset rawOffset : Nat) : PidataRecord :=
  let start : PidataRecord := .start offset o.opcode o.count
  match o.opcode with
  | 0 => start
  | 1 => { start with rawOffset := some rawOffset, dataLength := some o.count }
  | 2 => { start with repeatCount := some (o.repeats + 1), rawOffset := some rawOffset }
  | 3 | 4 =>
    { start with
      commonSize := some o.common, customSize := some o.custom, repeatCount := some o.repeats
      rawOffset := some rawOffset }
  | _ => { start with reserved := true }

/-- The opcodes that interleave. -/
def interleaves (o : Operands) : Prop := o.opcode = 3 ∨ o.opcode = 4

end Operands

/-- The instruction byte with its count, in its low five bits or after it. -/
inductive CountHead (opcode : Nat) : Nat → List UInt8 → Prop
  | short {n : Nat} : 1 ≤ n → n ≤ 31 → CountHead opcode n [UInt8.ofNat (opcode * 32 + n)]
  | long {n : Nat} {v : List UInt8} : IsVarint n v →
    CountHead opcode n (UInt8.ofNat (opcode * 32) :: v)

/-- **The grammar** of what stands before the raw bytes. The reserved opcodes have no operands. -/
inductive Grammar : Operands → List UInt8 → Prop
  | plain {opcode n : Nat} {h : List UInt8} : opcode < 8 → opcode ≠ 2 → opcode ≠ 3 → opcode ≠ 4 →
    CountHead opcode n h → Grammar ⟨opcode, n, 0, 0, 0⟩ h
  | repeated {n k : Nat} {h v : List UInt8} : CountHead 2 n h → IsVarint k v →
    Grammar ⟨2, n, 0, 0, k⟩ (h ++ v)
  | interleaved {opcode n c r : Nat} {h v w : List UInt8} : opcode = 3 ∨ opcode = 4 →
    CountHead opcode n h → IsVarint c v → IsVarint r w →
    Grammar ⟨opcode, n, n, c, r⟩ (h ++ v ++ w)

/-- What `pidata` takes for an instruction: the grammar where opcodes 3 and 4 have a positive count,
and for a count of zero the common size read from a further number. -/
inductive Reads : Operands → List UInt8 → Prop
  | grammar {o : Operands} {front : List UInt8} : Grammar o front →
    (o.interleaves → o.count ≠ 0) → Reads o front
  | zeroCount {opcode n c r : Nat} {u x v w : List UInt8} : opcode = 3 ∨ opcode = 4 →
    IsVarint 0 u → IsVarint n x → IsVarint c v → IsVarint r w →
    Reads ⟨opcode, 0, n, c, r⟩ (UInt8.ofNat (opcode * 32) :: u ++ x ++ v ++ w)

/-- An instruction in packed data. -/
structure Item where
  operands : Operands
  /-- The bytes before the raw ones. -/
  front : List UInt8
  raw : List UInt8

namespace Item

/-- The packed bytes of an instruction. -/
def bytes (i : Item) : List UInt8 := i.front ++ i.raw

/-- The bytes an instruction stands for. -/
def output (i : Item) : List UInt8 := i.operands.output i.raw

/-- The output can be made. -/
def Fits (i : Item) : Prop := i.operands.Fits i.raw

/-- A complete instruction of the grammar. -/
structure Complete (i : Item) : Prop where
  grammar : Grammar i.operands i.front
  raw : i.raw.length = i.operands.rawLength

/-- The raw bytes are cut off, or the count of an interleaving instruction is zero. -/
def Defective (i : Item) : Prop :=
  i.raw.length < i.operands.rawLength ∨ (i.operands.interleaves ∧ i.operands.count = 0)

end Item

/-- The entries of `instructions` for instructions that stand one after the other from `pos` on. -/
def records : Nat → List Item → List PidataRecord
  | _, [] => []
  | pos, i :: items =>
    i.operands.record pos (pos + i.front.length) ::
      records (pos + i.front.length + i.operands.rawLength) items

/-- **A reading** of the packed bytes from `pos` on, with `n` bytes of output so far: one
instruction after the other until the output or the packed bytes are used up, their raw bytes as far
as there are any, and exactly `unpackedSize` bytes of output in the end. -/
inductive Follows (packed : List UInt8) (unpackedSize : Nat) : Nat → Nat → List Item → Prop
  | stop {pos n : Nat} : ¬ (pos < packed.length ∧ n < unpackedSize) → n = unpackedSize →
    Follows packed unpackedSize pos n []
  | step {pos n : Nat} {i : Item} {items : List Item} {rest : List UInt8} :
    pos < packed.length → n < unpackedSize → packed.drop pos = i.front ++ rest →
    Reads i.operands i.front → i.raw = rest.take i.operands.rawLength → i.Fits →
    Follows packed unpackedSize (pos + i.front.length + i.operands.rawLength)
      (n + i.output.length) items →
    Follows packed unpackedSize pos n (i :: items)

/-- **An overrun**: reading on from `pos` comes to an instruction that repeats more than an index
can count. -/
inductive Overruns (packed : List UInt8) (unpackedSize : Nat) : Nat → Nat → Prop
  | here {pos n : Nat} {i : Item} {rest : List UInt8} :
    pos < packed.length → n < unpackedSize → packed.drop pos = i.front ++ rest →
    Reads i.operands i.front → i.raw = rest.take i.operands.rawLength → ¬ i.Fits →
    Overruns packed unpackedSize pos n
  | step {pos n : Nat} {i : Item} {rest : List UInt8} :
    pos < packed.length → n < unpackedSize → packed.drop pos = i.front ++ rest →
    Reads i.operands i.front → i.raw = rest.take i.operands.rawLength → i.Fits →
    Overruns packed unpackedSize (pos + i.front.length + i.operands.rawLength)
      (n + i.output.length) →
    Overruns packed unpackedSize pos n

/-! ## Numbers -/

theorem varintFrom_sound : ∀ {bytes : List UInt8} {value pos n stop : Nat},
    varintFrom bytes value pos = .ok (n, stop) →
    ∃ groups last post, bytes = groups ++ last :: post ∧ (∀ b ∈ groups, 128 ≤ b.toNat) ∧
      last.toNat < 128 ∧ n = groupsValue (groups ++ [last]) value ∧
      stop = pos + groups.length + 1
  | [], _, _, _, _, h => by cases h
  | b :: rest, value, pos, n, stop, h => by
    rw [varintFrom] at h
    simp only [shift_or_eq] at h
    split at h
    · rename_i hlow
      cases h
      exact ⟨[], b, rest, rfl, by simp, (high_bit_eq_zero_iff b).mp hlow, rfl, rfl⟩
    · rename_i hhigh
      obtain ⟨groups, last, post, rfl, hg, hl, hn, hs⟩ := varintFrom_sound h
      refine ⟨b :: groups, last, post, rfl, fun c hc => ?_, hl, hn, ?_⟩
      · rcases List.mem_cons.mp hc with rfl | hc
        · exact Nat.not_lt.mp fun hlt => hhigh ((high_bit_eq_zero_iff c).mpr hlt)
        · exact hg c hc
      · rw [hs, List.length_cons]
        omega

/-- **`varint` reads encoded numbers only.** -/
theorem varint_sound {buf : List UInt8} {pos n stop : Nat} (h : varint buf pos = .ok (n, stop)) :
    ∃ v post, buf.drop pos = v ++ post ∧ IsVarint n v ∧ stop = pos + v.length := by
  obtain ⟨groups, last, post, hb, hg, hl, hn, hs⟩ := varintFrom_sound h
  refine ⟨groups ++ [last], post, by rw [hb, List.append_assoc]; rfl,
    ⟨groups, last, rfl, hg, hl, hn.symm⟩, ?_⟩
  rw [hs, List.length_append, List.length_singleton, Nat.add_assoc]

theorem IsVarint.length_pos {n : Nat} {v : List UInt8} (h : IsVarint n v) : 0 < v.length := by
  obtain ⟨groups, last, rfl, -⟩ := h
  simp

/-- An encoded number is determined by the bytes it begins. -/
theorem IsVarint.unique {n m : Nat} {v w r s : List UInt8} (hv : IsVarint n v) (hw : IsVarint m w)
    (h : v ++ r = w ++ s) : n = m ∧ v = w ∧ r = s := by
  have h1 := varint_encoded hv (show (v ++ r).drop 0 = v ++ r from rfl)
  have h2 := varint_encoded hw (show (v ++ r).drop 0 = w ++ s from h)
  rw [h1, Except.ok.injEq, Prod.mk.injEq, Nat.zero_add, Nat.zero_add] at h2
  obtain ⟨hn, hlen⟩ := h2
  obtain ⟨hvw, hrs⟩ := List.append_inj h hlen
  exact ⟨hn, hvw, hrs⟩

/-! ## Reading the numbers of an instruction -/

/-- The numbers of an opcode after its count, and the position after them. -/
def readOperands (packed : List UInt8) (opcode count position : Nat) :
    Except Exc (Operands × Nat) :=
  match opcode with
  | 2 => do
    let (repeats, position) ← varint packed position
    return (⟨2, count, 0, 0, repeats⟩, position)
  | 3 | 4 => do
    let (common, custom, repeats, position) ← interleaveOperands packed count position
    return (⟨opcode, count, common, custom, repeats⟩, position)
  | _ => pure (⟨opcode, count, 0, 0, 0⟩, position)

/-- All numbers of the instruction at `pos`. -/
def readFront (packed : List UInt8) (pos : Nat) : Except Exc (Operands × Nat) := do
  let byte := u8 packed pos
  let inline_ := byte &&& 31
  let (count, position) ← if inline_ = 0 then varint packed (pos + 1) else pure (inline_, pos + 1)
  readOperands packed (byte >>> 5) count position

/-- A part of a slice. -/
theorem slice_slice (data : List UInt8) (p : Nat) {a b n : Nat} (h : b ≤ n) :
    slice (slice data p (p + n)) a b = slice data (p + a) (p + b) := by
  unfold slice
  rw [Nat.add_sub_cancel_left, List.drop_take, List.take_take, List.drop_drop]
  congr 1
  omega

theorem take_slice (data : List UInt8) (p a b : Nat) :
    (slice data p (p + (a + b))).take a = slice data p (p + a) :=
  slice_slice data p (a := 0) (Nat.le_add_right a b)

/-- The interleaved blocks of the packed bytes are those of the raw bytes. -/
theorem interleave_slice (packed common : List UInt8) (p n custom repeats : Nat) :
    interleave (slice packed p (p + (n + custom * repeats))) common n custom repeats =
      interleave packed common (p + n) custom repeats := by
  unfold interleave
  refine List.flatMap_congr fun i hi => ?_
  have hi := List.mem_range.mp hi
  have hle : (i + 1) * custom ≤ custom * repeats := by
    rw [Nat.mul_comm]
    exact Nat.mul_le_mul_left custom hi
  rw [slice_slice packed p (by omega), Nat.add_assoc, Nat.add_assoc]

theorem expand_of_fits {o : Operands} {raw : List UInt8} (h : o.Fits raw) :
    o.expand raw = .ok (o.output raw) := if_pos h

theorem expand_of_not_fits {o : Operands} {raw : List UInt8} (h : ¬ o.Fits raw) :
    o.expand raw = .error .overflowError := if_neg h

/-- Zeros for an instruction that fits exactly when they do. -/
theorem zeros_expand {β : Type} {o : Operands} {raw : List UInt8} {n : Nat}
    (f : List UInt8 → List UInt8) (g : List UInt8 → Except Exc β)
    (hfits : o.Fits raw ↔ n ≤ maxSize) (hout : o.output raw = f (List.replicate n 0)) :
    (repeatBytes [0] n >>= fun zeros => g (f zeros)) = o.expand raw >>= g := by
  by_cases h : n ≤ maxSize
  · rw [repeatBytes_zero h, expand_of_fits (hfits.mpr h), hout]
    rfl
  · rw [repeatBytes, if_neg fun hn => h hn.1, expand_of_not_fits fun hf => h (hfits.mp hf)]
    rfl

theorem repeat_expand (count repeats : Nat) (raw : List UInt8) :
    repeatBytes raw (repeats + 1) = (⟨2, count, 0, 0, repeats⟩ : Operands).expand raw := by
  by_cases h : repeats + 1 ≤ maxSize ∧ raw.length * (repeats + 1) ≤ maxSize
  · have hfits : (⟨2, count, 0, 0, repeats⟩ : Operands).Fits raw :=
      ⟨fun h0 => absurd h0 (by simp), fun _ => h, fun h4 => absurd h4 (by simp)⟩
    rw [repeatBytes_ok h.1 h.2, expand_of_fits hfits]
    rfl
  · rw [repeatBytes, if_neg h, expand_of_not_fits fun hf => h (hf.2.1 rfl)]
    rfl

/-- **The operands of `pidata`**, as numbers and then raw bytes. -/
theorem pidataOperands_eq (packed : List UInt8) (opcode count pos offset : Nat) :
    pidataOperands packed opcode count pos (.start offset opcode count) = (do
      let (o, p) ← readOperands packed opcode count pos
      let data ← o.expand (slice packed p (p + o.rawLength))
      return (data, p + o.rawLength, o.record offset p)) := by
  have hunlimited : ∀ {o : Operands} {raw : List UInt8}, o.opcode ≠ 0 → o.opcode ≠ 2 →
      o.opcode ≠ 4 → o.expand raw = .ok (o.output raw) := fun h0 h2 h4 =>
    expand_of_fits ⟨fun h => absurd h h0, fun h => absurd h h2, fun h => absurd h h4⟩
  match opcode with
  | 0 =>
    have hfits : (⟨0, count, 0, 0, 0⟩ : Operands).Fits (slice packed pos (pos + 0)) ↔
        count ≤ maxSize :=
      ⟨fun h => h.1 rfl, fun h => ⟨fun _ => h, fun h2 => absurd h2 (by simp),
        fun h4 => absurd h4 (by simp)⟩⟩
    exact zeros_expand id (fun zeros => pure (zeros, pos, PidataRecord.start offset 0 count)) hfits
      rfl
  | 1 =>
    simp only [pidataOperands, readOperands, pure_bind]
    rw [hunlimited (by simp) (by simp) (by simp)]
    rfl
  | 2 =>
    simp only [pidataOperands, readOperands, bind_assoc, pure_bind]
    refine bind_congr fun r => ?_
    rw [repeat_expand count]
    rfl
  | 3 =>
    simp only [pidataOperands, readOperands, bind_assoc, pure_bind]
    refine bind_congr fun r => ?_
    obtain ⟨common, custom, repeats, p⟩ := r
    rw [hunlimited (by simp) (by simp) (by simp)]
    show Except.ok _ = Except.ok _
    simp only [Operands.output, Operands.rawLength, Operands.record, take_slice, interleave_slice,
      Nat.add_assoc]
  | 4 =>
    simp only [pidataOperands, readOperands, bind_assoc, pure_bind]
    refine bind_congr fun r => ?_
    obtain ⟨common, custom, repeats, p⟩ := r
    let o : Operands := ⟨4, count, common, custom, repeats⟩
    have hfits : o.Fits (slice packed p (p + o.rawLength)) ↔ common ≤ maxSize :=
      ⟨fun h => h.2.2 rfl, fun h => ⟨fun h0 => absurd h0 (by simp [o]),
        fun h2 => absurd h2 (by simp [o]), fun _ => h⟩⟩
    exact zeros_expand
      (fun zeros =>
        interleaveZeros (slice packed p (p + o.rawLength)) zeros custom repeats ++ zeros)
      (fun data => pure (data, p + o.rawLength, o.record offset p)) hfits rfl
  | n + 5 =>
    simp only [pidataOperands, readOperands, pure_bind]
    rw [hunlimited (by simp) (by simp) (by simp)]
    rfl

/-- **One round of the loop**, as numbers and then raw bytes. -/
theorem pidataStep_eq (packed : List UInt8) (s : PidataState) :
    pidataStep packed s = (do
      let (o, p) ← readFront packed s.position
      let data ← o.expand (slice packed p (p + o.rawLength))
      return {
        position := p + o.rawLength
        output := s.output ++ data
        instructions := s.instructions ++ [o.record s.position p]
        counts := s.counts.set (u8 packed s.position >>> 5)
          ((s.counts.get? (u8 packed s.position >>> 5)).getD 0 + 1) }) := by
  unfold pidataStep readFront
  dsimp only
  split <;> simp only [pidataOperands_eq, bind_assoc, pure_bind]

/-- The two parts of an instruction byte give it back. -/
theorem instruction_byte_eq (b : UInt8) :
    b = UInt8.ofNat (b.toNat >>> 5 * 32 + (b.toNat &&& 31)) ∧ b.toNat >>> 5 < 8 ∧
      b.toNat &&& 31 ≤ 31 := by
  have hand : b.toNat &&& 31 = b.toNat % 32 := Nat.and_two_pow_sub_one_eq_mod _ 5
  have hlt := b.toNat_lt
  rw [hand, Nat.shiftRight_eq_div_pow]
  refine ⟨?_, by omega, by omega⟩
  rw [show b.toNat / 2 ^ 5 * 32 + b.toNat % 32 = b.toNat by omega, UInt8.ofNat_toNat]

/-- Reading the count of an instruction. -/
theorem countHead_sound {packed : List UInt8} {pos count stop : Nat} (hlt : pos < packed.length)
    (h : (if u8 packed pos &&& 31 = 0 then varint packed (pos + 1)
      else pure (u8 packed pos &&& 31, pos + 1)) = .ok (count, stop)) :
    ∃ head post, packed.drop pos = head ++ post ∧ CountHead (u8 packed pos >>> 5) count head ∧
      stop = pos + head.length ∧
      (count = 0 → ∃ u, IsVarint 0 u ∧ head = UInt8.ofNat (u8 packed pos >>> 5 * 32) :: u) := by
  obtain ⟨b, rest, hd⟩ : ∃ b rest, packed.drop pos = b :: rest :=
    ⟨_, _, List.drop_eq_getElem_cons hlt⟩
  have hu := u8_of_drop hd
  obtain ⟨hb, -, h31⟩ := instruction_byte_eq b
  rw [hu] at h ⊢
  split at h
  · rename_i hlow
    rw [hlow, Nat.add_zero] at hb
    obtain ⟨v, post, hv, hn, rfl⟩ := varint_sound h
    have hrest : rest = v ++ post := by
      rw [← hv, ← List.drop_drop, hd]
      rfl
    refine ⟨b :: v, post, by rw [hd, hrest]; rfl, ?_, by rw [List.length_cons]; omega,
      fun h0 => ⟨v, h0 ▸ hn, by rw [← hb]⟩⟩
    have hlong : CountHead (b.toNat >>> 5) count _ := .long hn
    rwa [← hb] at hlong
  · rename_i hlow
    cases h
    refine ⟨[b], rest, hd, ?_, rfl, fun h0 => absurd h0 hlow⟩
    have hshort : CountHead (b.toNat >>> 5) _ _ := .short (Nat.pos_of_ne_zero hlow) h31
    rwa [← hb] at hshort

/-- Reading two numbers one after the other. -/
theorem two_varints_sound {packed post : List UInt8} {p₀ p c r q₁ q : Nat} {x : List UInt8}
    (hd : packed.drop p₀ = x ++ post) (hp : p = p₀ + x.length)
    (h₁ : varint packed p = .ok (c, q₁)) (h₂ : varint packed q₁ = .ok (r, q)) :
    ∃ v w rest, packed.drop p₀ = x ++ v ++ w ++ rest ∧ IsVarint c v ∧ IsVarint r w ∧
      q = p₀ + (x ++ v ++ w).length := by
  subst hp
  have hpost := drop_of_drop hd
  obtain ⟨v, post₁, hv, hcv, rfl⟩ := varint_sound h₁
  have hpost₁ := drop_of_drop hv
  obtain ⟨w, rest, hw, hrw, rfl⟩ := varint_sound h₂
  refine ⟨v, w, rest, ?_, hcv, hrw, ?_⟩
  · rw [hd, ← hpost, hv, ← hpost₁, hw, List.append_assoc, List.append_assoc]
  · simp only [List.length_append]
    omega

theorem readOperands_sound {packed head post : List UInt8} {opcode count pos p q : Nat}
    {o : Operands} (h : readOperands packed opcode count p = .ok (o, q)) (hop : opcode < 8)
    (hd : packed.drop pos = head ++ post) (hhead : CountHead opcode count head)
    (hp : p = pos + head.length)
    (hzero : count = 0 → ∃ u, IsVarint 0 u ∧ head = UInt8.ofNat (opcode * 32) :: u) :
    ∃ front rest, packed.drop pos = front ++ rest ∧ Reads o front ∧
      q = pos + front.length := by
  have hinter : ∀ {op : Nat}, op = 3 ∨ op = 4 → op = opcode → (do
      let (common, custom, repeats, position) ← interleaveOperands packed count p
      return ((⟨op, count, common, custom, repeats⟩, position) : Operands × Nat)) = .ok (o, q) →
      ∃ front rest, packed.drop pos = front ++ rest ∧ Reads o front ∧ q = pos + front.length := by
    intro op hop' he hrun
    subst he
    obtain ⟨⟨common, custom, repeats, q'⟩, hi, hrun⟩ := bind_eq_ok hrun
    cases hrun
    rw [interleaveOperands] at hi
    split at hi
    · rename_i hcount
      obtain ⟨⟨common', p'⟩, h₁, hi₁⟩ := bind_eq_ok hi
      obtain ⟨⟨custom', p₁⟩, h₂, hi₂⟩ := bind_eq_ok hi₁
      obtain ⟨⟨repeats', p₂⟩, h₃, hi₃⟩ := bind_eq_ok hi₂
      cases h₁
      cases hi₃
      obtain ⟨v, w, rest, hd', hv, hw, hq⟩ := two_varints_sound hd hp h₂ h₃
      exact ⟨head ++ v ++ w, rest, hd', .grammar (.interleaved hop' hhead hv hw) fun _ => hcount,
        hq⟩
    · rename_i hcount
      have hcount : count = 0 := not_not.mp hcount
      subst hcount
      obtain ⟨u, hu, rfl⟩ := hzero rfl
      obtain ⟨⟨common', p'⟩, h₁, hi₁⟩ := bind_eq_ok hi
      obtain ⟨⟨custom', p₁⟩, h₂, hi₂⟩ := bind_eq_ok hi₁
      obtain ⟨⟨repeats', p₂⟩, h₃, hi₃⟩ := bind_eq_ok hi₂
      cases hi₃
      subst hp
      have hpost := drop_of_drop hd
      obtain ⟨x, post₁, hx, hcx, rfl⟩ := varint_sound h₁
      have hd' : packed.drop pos = (UInt8.ofNat (op * 32) :: u ++ x) ++ post₁ := by
        rw [hd, ← hpost, hx, List.append_assoc]
      have hp' : pos + (UInt8.ofNat (op * 32) :: u).length + x.length =
          pos + (UInt8.ofNat (op * 32) :: u ++ x).length := by
        rw [List.length_append, Nat.add_assoc]
      obtain ⟨v, w, rest, hd'', hv, hw, hq⟩ := two_varints_sound hd' hp' h₂ h₃
      exact ⟨_, rest, hd'', .zeroCount hop' hu hcx hv hw, hq⟩
  unfold readOperands at h
  split at h
  · obtain ⟨⟨repeats, q'⟩, h₁, h⟩ := bind_eq_ok h
    cases h
    subst hp
    have hpost := drop_of_drop hd
    obtain ⟨v, rest, hv, hkv, rfl⟩ := varint_sound h₁
    refine ⟨head ++ v, rest, by rw [hd, ← hpost, hv, List.append_assoc],
      .grammar (.repeated hhead hkv) ?_, by rw [List.length_append, Nat.add_assoc]⟩
    rintro (h | h) <;> exact absurd h (by simp)
  · exact hinter (Or.inl rfl) rfl h
  · exact hinter (Or.inr rfl) rfl h
  · rename_i h2 h3 h4
    cases h
    refine ⟨head, post, hd, .grammar (.plain hop h2 h3 h4 hhead) ?_, hp⟩
    rintro (h | h)
    · exact absurd h h3
    · exact absurd h h4

theorem readFront_eq (packed : List UInt8) (pos : Nat) :
    readFront packed pos =
      (if u8 packed pos &&& 31 = 0 then varint packed (pos + 1)
        else pure (u8 packed pos &&& 31, pos + 1)) >>= fun r =>
        readOperands packed (u8 packed pos >>> 5) r.1 r.2 := by
  unfold readFront
  dsimp only
  split <;> rfl

/-- **What `pidata` reads** before raw bytes. -/
theorem readFront_sound {packed : List UInt8} {pos q : Nat} {o : Operands}
    (hlt : pos < packed.length) (h : readFront packed pos = .ok (o, q)) :
    ∃ front rest, packed.drop pos = front ++ rest ∧ Reads o front ∧ q = pos + front.length := by
  rw [readFront_eq] at h
  obtain ⟨⟨count, p⟩, h₁, h⟩ := bind_eq_ok h
  obtain ⟨head, post, hd, hhead, hp, hzero⟩ := countHead_sound hlt h₁
  have hop : u8 packed pos >>> 5 < 8 := by
    rw [u8_of_drop (List.drop_eq_getElem_cons hlt)]
    exact (instruction_byte_eq _).2.1
  exact readOperands_sound h hop hd hhead hp hzero

/-- Reading a count back. -/
theorem countHead_complete {packed head post : List UInt8} {pos opcode n : Nat} (hop : opcode < 8)
    (hhead : CountHead opcode n head) (hd : packed.drop pos = head ++ post) :
    readFront packed pos = readOperands packed opcode n (pos + head.length) := by
  rw [readFront_eq]
  cases hhead with
  | short h1 h31 =>
    obtain ⟨hshift, hlow⟩ := instruction_byte hop h31
    rw [u8_of_drop hd, hshift, hlow, if_neg (by omega)]
    rfl
  | @long v hv =>
    obtain ⟨hshift, hlow⟩ := instruction_byte hop (Nat.zero_le 31)
    rw [Nat.add_zero] at hshift hlow
    have hd' : packed.drop (pos + 1) = v ++ post :=
      drop_of_drop (show packed.drop pos = [UInt8.ofNat (opcode * 32)] ++ (v ++ post) from hd)
    rw [u8_of_drop hd, hshift, hlow, if_pos rfl, varint_encoded hv hd', List.length_cons,
      Nat.add_right_comm, Nat.add_assoc pos]
    rfl

theorem readOperands_interleaved {packed : List UInt8} {opcode n p common custom repeats q : Nat}
    (hop : opcode = 3 ∨ opcode = 4)
    (h : interleaveOperands packed n p = .ok (common, custom, repeats, q)) :
    readOperands packed opcode n p = .ok (⟨opcode, n, common, custom, repeats⟩, q) := by
  rcases hop with rfl | rfl
  all_goals
    simp only [readOperands]
    rw [h]
    rfl

/-- **Reading the numbers back.** -/
theorem readFront_complete {packed front rest : List UInt8} {pos : Nat} {o : Operands}
    (hr : Reads o front) (hd : packed.drop pos = front ++ rest) :
    readFront packed pos = .ok (o, pos + front.length) := by
  cases hr with
  | grammar hg hpos =>
    cases hg with
    | @plain opcode n h hop h2 h3 h4 hhead =>
      rw [countHead_complete hop hhead hd, readOperands]
      · rfl
      all_goals assumption
    | @repeated n k h v hhead hv =>
      rw [List.append_assoc] at hd
      rw [countHead_complete (by decide) hhead hd]
      simp only [readOperands]
      rw [varint_encoded hv (drop_of_drop hd), List.length_append, Nat.add_assoc]
      rfl
    | @interleaved opcode n c r h v w hop hhead hv hw =>
      rw [List.append_assoc, List.append_assoc] at hd
      have hn : n ≠ 0 := hpos hop
      rw [countHead_complete (by omega) hhead hd]
      refine readOperands_interleaved hop ?_
      rw [operands_encoded (Nat.pos_of_ne_zero hn) hv hw (drop_of_drop hd)]
      simp only [List.length_append, Nat.add_assoc]
  | @zeroCount opcode n c r u x v w hop hu hx hv hw =>
    simp only [List.cons_append, List.append_assoc] at hd
    have hd₀ : packed.drop pos = (UInt8.ofNat (opcode * 32) :: u) ++ (x ++ (v ++ (w ++ rest))) := hd
    rw [countHead_complete (by omega) (.long hu) hd₀]
    refine readOperands_interleaved hop ?_
    have hd₁ := drop_of_drop hd₀
    have hd₂ := drop_of_drop hd₁
    have hd₃ := drop_of_drop hd₂
    simp only [interleaveOperands, ne_eq, not_true_eq_false, if_false]
    show (varint packed _ >>= _) = _
    rw [varint_encoded hx hd₁]
    show (varint packed _ >>= _) = _
    rw [varint_encoded hv hd₂]
    show (varint packed _ >>= _) = _
    rw [varint_encoded hw hd₃]
    show Except.ok _ = _
    simp only [List.length_append, List.length_cons, Nat.add_assoc]

/-- The bytes of the packed data determine what is read. -/
theorem Reads.unique {packed f₁ f₂ r₁ r₂ : List UInt8} {pos : Nat} {o₁ o₂ : Operands}
    (h₁ : Reads o₁ f₁) (h₂ : Reads o₂ f₂) (hd₁ : packed.drop pos = f₁ ++ r₁)
    (hd₂ : packed.drop pos = f₂ ++ r₂) : o₁ = o₂ ∧ f₁ = f₂ ∧ r₁ = r₂ := by
  have he := readFront_complete h₁ hd₁
  rw [readFront_complete h₂ hd₂, Except.ok.injEq, Prod.mk.injEq] at he
  obtain ⟨rfl, hlen⟩ := he
  obtain ⟨hf, hr⟩ := List.append_inj (hd₁.symm.trans hd₂) (by omega)
  exact ⟨rfl, hf, hr⟩

/-! ## The loop -/

/-- What one round has done. -/
structure Item.Stepped (i : Item) (s s' : PidataState) : Prop where
  position : s'.position = s.position + i.front.length + i.operands.rawLength
  output : s'.output = s.output ++ i.output
  instructions : s'.instructions =
    s.instructions ++ [i.operands.record s.position (s.position + i.front.length)]

theorem slice_eq_take {packed front rest : List UInt8} {pos : Nat}
    (hd : packed.drop pos = front ++ rest) (n : Nat) :
    slice packed (pos + front.length) (pos + front.length + n) = rest.take n := by
  rw [slice, drop_of_drop hd, Nat.add_sub_cancel_left]

/-- The output of one round, made or not. -/
theorem pidataStep_expand {packed rest : List UInt8} {s : PidataState} {i : Item}
    (hd : packed.drop s.position = i.front ++ rest) (hr : Reads i.operands i.front)
    (hraw : i.raw = rest.take i.operands.rawLength) :
    pidataStep packed s = (do
      let data ← i.operands.expand i.raw
      return {
        position := s.position + i.front.length + i.operands.rawLength
        output := s.output ++ data
        instructions := s.instructions ++
          [i.operands.record s.position (s.position + i.front.length)]
        counts := s.counts.set (u8 packed s.position >>> 5)
          ((s.counts.get? (u8 packed s.position >>> 5)).getD 0 + 1) }) := by
  rw [pidataStep_eq, readFront_complete hr hd, hraw, ← slice_eq_take hd]
  rfl

theorem pidataStep_of_reads {packed rest : List UInt8} {s : PidataState} {i : Item}
    (hd : packed.drop s.position = i.front ++ rest) (hr : Reads i.operands i.front)
    (hraw : i.raw = rest.take i.operands.rawLength) (hfits : i.Fits) :
    ∃ s', pidataStep packed s = .ok s' ∧ i.Stepped s s' := by
  rw [pidataStep_expand hd hr hraw, expand_of_fits hfits]
  exact ⟨_, rfl, rfl, rfl, rfl⟩

/-- An instruction that does not fit ends the loop. -/
theorem pidataStep_overrun {packed rest : List UInt8} {s : PidataState} {i : Item}
    (hd : packed.drop s.position = i.front ++ rest) (hr : Reads i.operands i.front)
    (hraw : i.raw = rest.take i.operands.rawLength) (hfits : ¬ i.Fits) :
    pidataStep packed s = .error .overflowError := by
  rw [pidataStep_expand hd hr hraw, expand_of_not_fits hfits]
  rfl

/-- What a round has read, unless its numbers are cut off. -/
theorem pidataStep_front {packed : List UInt8} {s : PidataState}
    (hlt : s.position < packed.length) :
    (∃ e, readFront packed s.position = .error e ∧ pidataStep packed s = .error e) ∨
      ∃ (i : Item) (rest : List UInt8), packed.drop s.position = i.front ++ rest ∧
        Reads i.operands i.front ∧ i.raw = rest.take i.operands.rawLength := by
  cases hfront : readFront packed s.position with
  | error e =>
    refine Or.inl ⟨e, rfl, ?_⟩
    rw [pidataStep_eq, hfront]
    rfl
  | ok r =>
    obtain ⟨o, q⟩ := r
    obtain ⟨front, rest, hd, hr, -⟩ := readFront_sound hlt hfront
    exact Or.inr ⟨⟨o, front, rest.take o.rawLength⟩, rest, hd, hr, rfl⟩

theorem pidataStep_reads {packed : List UInt8} {s s' : PidataState}
    (hlt : s.position < packed.length) (h : pidataStep packed s = .ok s') :
    ∃ (i : Item) (rest : List UInt8), packed.drop s.position = i.front ++ rest ∧
      Reads i.operands i.front ∧ i.raw = rest.take i.operands.rawLength ∧ i.Fits ∧
      i.Stepped s s' := by
  rcases pidataStep_front hlt with ⟨e, -, he⟩ | ⟨i, rest, hd, hr, hraw⟩
  · rw [he] at h
    cases h
  · by_cases hfits : i.operands.Fits i.raw
    · obtain ⟨s₁, hs₁, hstep⟩ := pidataStep_of_reads hd hr hraw hfits
      rw [h, Except.ok.injEq] at hs₁
      subst hs₁
      exact ⟨i, rest, hd, hr, hraw, hfits, hstep⟩
    · rw [pidataStep_overrun hd hr hraw hfits] at h
      cases h

/-- What the rounds of a reading have done. -/
structure Ran (s s' : PidataState) (items : List Item) : Prop where
  output : s'.output = s.output ++ items.flatMap Item.output
  instructions : s'.instructions = s.instructions ++ records s.position items

theorem Ran.nil (s : PidataState) : Ran s s [] :=
  ⟨(List.append_nil _).symm, (List.append_nil _).symm⟩

theorem Ran.cons {s s₁ s' : PidataState} {i : Item} {items : List Item} (h : i.Stepped s s₁)
    (hr : Ran s₁ s' items) : Ran s s' (i :: items) where
  output := by rw [hr.output, h.output, List.append_assoc, List.flatMap_cons]
  instructions := by
    rw [hr.instructions, h.instructions, h.position, List.append_assoc]
    rfl

/-- **A run of the loop that fills the section** is a reading. -/
theorem pidataLoop_follows {packed : List UInt8} {unpackedSize fuel : Nat} {s s' : PidataState}
    (h : pidataLoop packed unpackedSize fuel s = .ok s') (hf : packed.length ≤ s.position + fuel)
    (hlen : s'.output.length = unpackedSize) :
    ∃ items, Follows packed unpackedSize s.position s.output.length items ∧ Ran s s' items := by
  induction fuel generalizing s with
  | zero =>
    cases h
    exact ⟨[], .stop (by omega) hlen, .nil _⟩
  | succ fuel ih =>
    rw [pidataLoop] at h
    split at h
    · rename_i hgo
      obtain ⟨s₁, hstep, h⟩ := bind_eq_ok h
      obtain ⟨i, rest, hd, hr, hraw, hfits, hi⟩ := pidataStep_reads hgo.1 hstep
      have hpos := pidataStep_position hstep
      obtain ⟨items, hfol, hran⟩ := ih h (by omega)
      rw [hi.position, hi.output, List.length_append] at hfol
      exact ⟨i :: items, .step hgo.1 hgo.2 hd hr hraw hfits hfol, hran.cons hi⟩
    · rename_i hstop
      cases h
      exact ⟨[], .stop hstop hlen, .nil _⟩

/-- **Every reading** is a run of the loop that fills the section. -/
theorem Follows.loop {packed : List UInt8} {unpackedSize pos n : Nat} {items : List Item}
    (h : Follows packed unpackedSize pos n items) {s : PidataState} {fuel : Nat}
    (hpos : s.position = pos) (hn : s.output.length = n) (hf : packed.length ≤ pos + fuel) :
    ∃ s', pidataLoop packed unpackedSize fuel s = .ok s' ∧ Ran s s' items ∧
      s'.output.length = unpackedSize := by
  induction h generalizing s fuel with
  | stop hstop hfull =>
    refine ⟨s, ?_, .nil s, hn.trans hfull⟩
    cases fuel with
    | zero => rfl
    | succ fuel =>
      rw [pidataLoop, if_neg (by rw [hpos, hn]; exact hstop)]
      rfl
  | @step pos n i items rest hlt hlow hd hr hraw hfits _ ih =>
    subst hpos
    obtain ⟨f, rfl⟩ : ∃ f, fuel = f + 1 := ⟨fuel - 1, by omega⟩
    obtain ⟨s₁, hstep, hi⟩ := pidataStep_of_reads hd hr hraw hfits
    have hgrow := pidataStep_position hstep
    have hn₁ : s₁.output.length = n + i.output.length := by
      rw [hi.output, List.length_append, hn]
    have hf₁ : packed.length ≤ s.position + i.front.length + i.operands.rawLength + f := by
      have := hi.position
      omega
    obtain ⟨s', hloop, hran, hfull⟩ := ih hi.position hn₁ hf₁
    refine ⟨s', ?_, hran.cons hi, hfull⟩
    rw [pidataLoop, if_pos ⟨hlt, by omega⟩, hstep]
    exact hloop

/-- **An overrun** ends the loop with the `OverflowError` of a repetition. -/
theorem Overruns.loop {packed : List UInt8} {unpackedSize pos n : Nat}
    (h : Overruns packed unpackedSize pos n) {s : PidataState} {fuel : Nat}
    (hpos : s.position = pos) (hn : s.output.length = n) (hf : packed.length ≤ pos + fuel) :
    pidataLoop packed unpackedSize fuel s = .error .overflowError := by
  induction h generalizing s fuel with
  | here hlt hlow hd hr hraw hfits =>
    subst hpos
    obtain ⟨f, rfl⟩ : ∃ f, fuel = f + 1 := ⟨fuel - 1, by omega⟩
    rw [pidataLoop, if_pos ⟨hlt, by omega⟩, pidataStep_overrun hd hr hraw hfits]
    rfl
  | @step pos n i rest hlt hlow hd hr hraw hfits _ ih =>
    subst hpos
    obtain ⟨f, rfl⟩ : ∃ f, fuel = f + 1 := ⟨fuel - 1, by omega⟩
    obtain ⟨s₁, hstep, hi⟩ := pidataStep_of_reads hd hr hraw hfits
    have hgrow := pidataStep_position hstep
    have hn₁ : s₁.output.length = n + i.output.length := by
      rw [hi.output, List.length_append, hn]
    have hf₁ : packed.length ≤ s.position + i.front.length + i.operands.rawLength + f := by
      have := hi.position
      omega
    rw [pidataLoop, if_pos ⟨hlt, by omega⟩, hstep]
    exact ih hi.position hn₁ hf₁

/-! ## What an accepted section says -/

/-- **Grammatical**: the packed bytes begin with complete instructions of the grammar, which are the
ones `pidata` returns and whose output, of the right length, is the expansion. -/
structure Grammatical (packed : List UInt8) (section_ : Section) (r : PidataResult)
    (items : List Item) : Prop where
  consumed : ∃ rest, packed = items.flatMap Item.bytes ++ rest
  complete : ∀ i ∈ items, i.Complete
  instructions : r.instructions = records 0 items
  expanded : r.expanded = items.flatMap Item.output ++
    List.replicate (section_.totalSize - section_.unpackedSize) 0
  length : (items.flatMap Item.output).length = section_.unpackedSize

/-- A record names its instruction's opcode and count. -/
theorem record_count (o : Operands) (pos p : Nat) :
    (o.record pos p).opcode = o.opcode ∧ (o.record pos p).count = o.count := by
  unfold Operands.record
  dsimp only
  split <;> exact ⟨rfl, rfl⟩

/-- The record of an interleaving instruction says where its raw bytes are. -/
theorem record_rawOffset {o : Operands} (ho : o.interleaves) (pos p : Nat) :
    (o.record pos p).rawOffset = some p := by
  obtain ⟨opcode, count, common, custom, repeats⟩ := o
  rcases ho with rfl | rfl <;> rfl

/-- Equal records of an interleaving instruction and another one. -/
theorem record_inj {o₁ o₂ : Operands} {pos p₁ p₂ : Nat} (h : o₁.record pos p₁ = o₂.record pos p₂) :
    o₁.opcode = o₂.opcode ∧ o₁.count = o₂.count ∧ (o₁.interleaves → p₁ = p₂) := by
  obtain ⟨hop₁, hn₁⟩ := record_count o₁ pos p₁
  obtain ⟨hop₂, hn₂⟩ := record_count o₂ pos p₂
  have hop : o₁.opcode = o₂.opcode := by rw [← hop₁, h, hop₂]
  refine ⟨hop, by rw [← hn₁, h, hn₂], fun hi => ?_⟩
  have hi₂ : o₂.interleaves := by
    unfold Operands.interleaves
    rw [← hop]
    exact hi
  have hraw := record_rawOffset hi pos p₁
  rw [h, record_rawOffset hi₂, Option.some.injEq] at hraw
  exact hraw.symm

/-- With a further number, the numbers of an interleaving instruction end elsewhere. -/
theorem zeroCount_front {packed u x v w h v' w' r₁ r₂ : List UInt8} {pos opcode n c r c' r' : Nat}
    (hu : IsVarint 0 u) (hx : IsVarint n x) (hv : IsVarint c v) (hw : IsVarint r w)
    (hh : CountHead opcode 0 h) (hv' : IsVarint c' v') (hw' : IsVarint r' w')
    (hd₁ : packed.drop pos = UInt8.ofNat (opcode * 32) :: u ++ x ++ v ++ w ++ r₁)
    (hd₂ : packed.drop pos = h ++ v' ++ w' ++ r₂) :
    (UInt8.ofNat (opcode * 32) :: u ++ x ++ v ++ w).length ≠ (h ++ v' ++ w').length := by
  cases hh with
  | short h1 _ => exact absurd h1 (by decide)
  | @long u' hu' =>
    have he := hd₁.symm.trans hd₂
    simp only [List.cons_append, List.append_assoc, List.cons.injEq, true_and] at he
    obtain ⟨-, rfl, he₁⟩ := hu.unique hu' he
    obtain ⟨-, rfl, he₂⟩ := hx.unique hv' he₁
    obtain ⟨-, rfl, -⟩ := hv.unique hw' he₂
    have hpos := hw.length_pos
    simp only [List.length_append]
    omega

/-- An instruction that is read as one of the grammar, from the same bytes and with the same
record, is that one. -/
theorem Reads.eq_of_record {packed r₁ r₂ : List UInt8} {pos : Nat} {i j : Item}
    (hi : Reads i.operands i.front) (hj : Grammar j.operands j.front)
    (hd₁ : packed.drop pos = i.front ++ r₁) (hd₂ : packed.drop pos = j.front ++ r₂)
    (hrec : i.operands.record pos (pos + i.front.length) =
      j.operands.record pos (pos + j.front.length)) :
    i.operands = j.operands ∧ i.front = j.front ∧ r₁ = r₂ ∧
      ¬ (i.operands.interleaves ∧ i.operands.count = 0) := by
  obtain ⟨hop, hn, hlen⟩ := record_inj hrec
  obtain ⟨o, front, raw⟩ := i
  obtain ⟨o', front', raw'⟩ := j
  dsimp only at *
  cases hi with
  | grammar _ hpos =>
    have hj' : Reads o' front' := .grammar hj fun hinter => by
      rw [← hn]
      refine hpos ?_
      unfold Operands.interleaves
      rw [hop]
      exact hinter
    obtain ⟨ho, hf, hr⟩ := Reads.unique (.grammar ‹_› hpos) hj' hd₁ hd₂
    exact ⟨ho, hf, hr, fun hzero => hpos hzero.1 hzero.2⟩
  | zeroCount hinter hu hx hv hw =>
    have hlen := hlen hinter
    cases hj with
    | plain _ _ h3 h4 _ =>
      dsimp only at hop
      omega
    | repeated _ _ =>
      dsimp only at hop
      omega
    | interleaved hinter' hhead hv' hw' =>
      dsimp only at hop hn
      subst hop hn
      exact absurd (Nat.add_left_cancel hlen)
        (zeroCount_front hu hx hv hw hhead hv' hw' hd₁ hd₂)

/-- **A reading with the records of complete instructions** is those instructions. -/
theorem Follows.not_defective {packed : List UInt8} {unpackedSize pos n : Nat}
    {items₁ : List Item} (h : Follows packed unpackedSize pos n items₁) {items₂ : List Item}
    {rest : List UInt8} (hcomplete : ∀ i ∈ items₂, i.Complete)
    (hd : packed.drop pos = items₂.flatMap Item.bytes ++ rest)
    (hrec : records pos items₁ = records pos items₂) : ∀ i ∈ items₁, ¬ i.Defective := by
  induction h generalizing items₂ with
  | stop _ _ =>
    intro i hi
    cases hi
  | @step pos n i items r₁ _ _ hd₁ hr hraw _ _ ih =>
    cases items₂ with
    | nil => cases hrec
    | cons j js =>
      rw [records, records, List.cons.injEq] at hrec
      have hj := hcomplete j List.mem_cons_self
      have hd₂ : packed.drop pos = j.front ++ (j.raw ++ (js.flatMap Item.bytes ++ rest)) := by
        rw [hd, List.flatMap_cons, Item.bytes, List.append_assoc, List.append_assoc]
      obtain ⟨ho, hf, rfl, hzero⟩ := hr.eq_of_record hj.grammar hd₁ hd₂ hrec.1
      have htail : packed.drop (pos + i.front.length + i.operands.rawLength) =
          js.flatMap Item.bytes ++ rest := by
        rw [← List.drop_drop, drop_of_drop hd₁, ho, ← hj.raw, List.drop_left]
      have hrec' := hrec.2
      rw [← hf, ← ho] at hrec'
      have hrest := ih (fun k hk => hcomplete k (List.mem_cons_of_mem _ hk)) htail hrec'
      intro k hk
      rcases List.mem_cons.mp hk with rfl | hk
      · rintro (hcut | hcount)
        · rw [hraw, List.length_take, List.length_append, ho, ← hj.raw] at hcut
          omega
        · exact hzero hcount
      · exact hrest k hk

theorem Reads.grammar_of {o : Operands} {front : List UInt8} (h : Reads o front)
    (hzero : ¬ (o.interleaves ∧ o.count = 0)) : Grammar o front := by
  cases h with
  | grammar hg _ => exact hg
  | zeroCount hop _ _ _ _ => exact absurd ⟨hop, rfl⟩ hzero

/-- **A reading without a defect** is a sequence of complete instructions. -/
theorem Follows.complete {packed : List UInt8} {unpackedSize pos n : Nat} {items : List Item}
    (h : Follows packed unpackedSize pos n items) (hsound : ∀ i ∈ items, ¬ i.Defective) :
    (∀ i ∈ items, i.Complete) ∧ ∃ rest, packed.drop pos = items.flatMap Item.bytes ++ rest := by
  induction h with
  | stop _ _ =>
    refine ⟨fun i hi => ?_, _, rfl⟩
    cases hi
  | @step pos n i items rest _ _ hd hr hraw _ _ ih =>
    obtain ⟨hcomplete, rest', hd'⟩ := ih fun j hj => hsound j (List.mem_cons_of_mem _ hj)
    have hi := hsound i List.mem_cons_self
    have hlen : i.raw.length = i.operands.rawLength := by
      have hle : i.raw.length ≤ i.operands.rawLength := by
        rw [hraw]
        exact List.length_take_le _ _
      exact Nat.le_antisymm hle (Nat.not_lt.mp fun hlt => hi (.inl hlt))
    have hgrammar := hr.grammar_of fun hzero => hi (.inr hzero)
    refine ⟨fun j hj => ?_, rest', ?_⟩
    · rcases List.mem_cons.mp hj with rfl | hj
      · exact ⟨hgrammar, hlen⟩
      · exact hcomplete j hj
    · rw [← List.drop_drop, drop_of_drop hd] at hd'
      have hraw' : i.raw ++ rest.drop i.operands.rawLength = rest := by
        rw [hraw, List.take_append_drop]
      rw [hd, List.flatMap_cons, Item.bytes, ← hraw', hd', List.append_assoc, List.append_assoc]

/-! ## What is raised -/

/-- A computation that raises nothing but `PEFError`. -/
def OnlyPef {α : Type} (x : Except Exc α) : Prop := ∀ e, x = .error e → ∃ t, e = .pefError t

namespace OnlyPef

variable {α β : Type}

theorem ok (a : α) : OnlyPef (.ok a : Except Exc α) := fun e h => by cases h

theorem bind {x : Except Exc α} {f : α → Except Exc β} (hx : OnlyPef x)
    (hf : ∀ a, x = .ok a → OnlyPef (f a)) : OnlyPef (x >>= f) := by
  intro e h
  cases hxa : x with
  | ok a =>
    rw [hxa] at h
    exact hf a hxa e h
  | error e' =>
    rw [hxa] at h
    cases h
    exact hx e hxa

theorem varintFrom : ∀ (bytes : List UInt8) (value pos : Nat),
    OnlyPef (varintFrom bytes value pos)
  | [], _, _ => fun e h => by
    cases h
    exact ⟨_, rfl⟩
  | b :: rest, value, pos => by
    rw [Pef.varintFrom]
    split
    · exact ok _
    · exact varintFrom rest _ _

theorem varint (packed : List UInt8) (pos : Nat) : OnlyPef (varint packed pos) := varintFrom _ _ _

theorem interleaveOperands (packed : List UInt8) (count pos : Nat) :
    OnlyPef (interleaveOperands packed count pos) := by
  unfold Pef.interleaveOperands
  split
  · exact bind (ok _) fun _ _ => bind (varint _ _) fun _ _ => bind (varint _ _) fun _ _ => ok _
  · exact bind (varint _ _) fun _ _ => bind (varint _ _) fun _ _ =>
      bind (varint _ _) fun _ _ => ok _

theorem readOperands (packed : List UInt8) (opcode count pos : Nat) :
    OnlyPef (readOperands packed opcode count pos) := by
  unfold Pef.readOperands
  split
  · exact bind (varint _ _) fun _ _ => ok _
  · exact bind (interleaveOperands _ _ _) fun _ _ => ok _
  · exact bind (interleaveOperands _ _ _) fun _ _ => ok _
  · exact ok _

theorem readFront (packed : List UInt8) (pos : Nat) : OnlyPef (readFront packed pos) := by
  rw [readFront_eq]
  refine bind ?_ fun _ _ => readOperands _ _ _ _
  split
  · exact varint _ _
  · exact ok _

end OnlyPef

/-- **What the loop raises**: `PEFError`, unless it comes to an overrun. -/
theorem pidataLoop_raises {packed : List UInt8} {unpackedSize fuel : Nat} {s : PidataState}
    {e : Exc} (h : pidataLoop packed unpackedSize fuel s = .error e) :
    (∃ t, e = .pefError t) ∨ Overruns packed unpackedSize s.position s.output.length := by
  induction fuel generalizing s with
  | zero => cases h
  | succ fuel ih =>
    rw [pidataLoop] at h
    split at h
    · rename_i hgo
      rcases pidataStep_front hgo.1 with ⟨e', hfront, he'⟩ | ⟨i, rest, hd, hr, hraw⟩
      · rw [he'] at h
        cases h
        exact Or.inl (OnlyPef.readFront _ _ _ hfront)
      · by_cases hfits : i.operands.Fits i.raw
        · obtain ⟨s₁, hstep, hi⟩ := pidataStep_of_reads hd hr hraw hfits
          rw [hstep] at h
          rcases ih h with hpef | hover
          · exact Or.inl hpef
          · rw [hi.position, hi.output, List.length_append] at hover
            exact Or.inr (.step hgo.1 hgo.2 hd hr hraw hfits hover)
        · exact Or.inr (.here hgo.1 hgo.2 hd hr hraw hfits)
    · cases h

/-- What the expansion of packed bytes raises. -/
theorem expandPacked_raises {packed : List UInt8} {unpackedSize : Nat} {e : Exc}
    (h : expandPacked packed unpackedSize = .error e) :
    (∃ t, e = .pefError t) ∨ Overruns packed unpackedSize 0 0 := by
  unfold expandPacked at h
  cases hloop : pidataLoop packed unpackedSize packed.length .start with
  | error e' =>
    rw [hloop] at h
    cases h
    exact pidataLoop_raises hloop
  | ok s =>
    rw [hloop] at h
    change (if s.output.length ≠ unpackedSize then _ else _) = _ at h
    split at h
    · cases h
      exact Or.inl ⟨_, rfl⟩
    · cases h

/-! ## Which inputs are accepted -/

/-- What `pidata` returns for a container with pattern data. -/
theorem pidata_eq {p : PEF} {section_ : Section} {packed : List UInt8}
    (hfirst : p.patternSection = some section_)
    (hpacked : p.rawSection section_.index = .ok packed) :
    p.pidata true = (do
      let s ← expandPacked packed section_.unpackedSize
      return {
        instructions := s.instructions
        opcodeCounts := s.counts
        expanded := s.output ++ List.replicate (section_.totalSize - s.output.length) 0
        unpackedSize := section_.unpackedSize
        totalSize := section_.totalSize
        packedSize := some section_.packedSize }) := by
  unfold PEF.pidata
  rw [hfirst]
  dsimp only
  rw [hpacked]
  rfl

/-- Ten bytes of packed data call for `2 ^ 63` zero bytes. -/
example : expandPacked [0x00, 0x81, 0x80, 0x80, 0x80, 0x80, 0x80, 0x80, 0x80, 0x80, 0x00] 1 =
    .error .overflowError := rfl

/-- What `pidata` returns for a reading. -/
structure Returns (packed : List UInt8) (section_ : Section) (r : PidataResult)
    (items : List Item) : Prop where
  follows : Follows packed section_.unpackedSize 0 0 items
  instructions : r.instructions = records 0 items
  expanded : r.expanded = items.flatMap Item.output ++
    List.replicate (section_.totalSize - section_.unpackedSize) 0
  length : (items.flatMap Item.output).length = section_.unpackedSize

section Returned

variable {p : PEF} {section_ : Section} {packed : List UInt8} {r : PidataResult} {items : List Item}
  (hfirst : p.patternSection = some section_)
  (hpacked : p.rawSection section_.index = .ok packed)

include hfirst hpacked

/-- **What is accepted** has a reading. -/
theorem pidata_returns (hr : p.pidata true = .ok r) : ∃ items, Returns packed section_ r items := by
  rw [pidata_eq hfirst hpacked] at hr
  obtain ⟨s, hs, hr⟩ := bind_eq_ok hr
  cases hr
  obtain ⟨s', hloop, hs⟩ := bind_eq_ok hs
  split at hs
  · cases hs
  · rename_i hlen
    have hlen : s'.output.length = section_.unpackedSize := not_not.mp hlen
    cases hs
    obtain ⟨items, hfol, hran⟩ := pidataLoop_follows hloop (Nat.le_add_left _ _) hlen
    have hout : s.output = items.flatMap Item.output := hran.output
    rw [hout] at hlen
    exact ⟨items, hfol, hran.instructions, by rw [hout, hlen], hlen⟩

/-- **Every reading** is accepted. -/
theorem Follows.pidata (h : Follows packed section_.unpackedSize 0 0 items) :
    ∃ r, p.pidata true = .ok r ∧ Returns packed section_ r items := by
  obtain ⟨s, hloop, hran, hlen⟩ := h.loop (s := .start) rfl rfl (Nat.le_add_left packed.length 0)
  have hexpand : expandPacked packed section_.unpackedSize = .ok s := by
    unfold expandPacked
    rw [hloop]
    show (if s.output.length ≠ section_.unpackedSize then _ else _) = _
    rw [if_neg (not_not.mpr hlen)]
    rfl
  have hout : s.output = items.flatMap Item.output := hran.output
  rw [pidata_eq hfirst hpacked, hexpand]
  rw [hout] at hlen
  exact ⟨_, rfl, h, hran.instructions, by rw [hout, hlen], hlen⟩

/-- **An overrun** is raised. -/
theorem Overruns.pidata (h : Overruns packed section_.unpackedSize 0 0) :
    p.pidata true = .error .overflowError := by
  have hloop : pidataLoop packed section_.unpackedSize packed.length .start =
      .error .overflowError := h.loop rfl rfl (Nat.le_add_left packed.length 0)
  rw [pidata_eq hfirst hpacked, expandPacked, hloop]
  rfl

/-- **A returned reading is grammatical** exactly when it has no defect. -/
theorem grammatical_iff (hr : p.pidata true = .ok r)
    (hfol : Follows packed section_.unpackedSize 0 0 items) :
    (∃ items', Grammatical packed section_ r items') ↔ ∀ i ∈ items, ¬ i.Defective := by
  obtain ⟨r', hr', hret⟩ := hfol.pidata hfirst hpacked
  rw [hr, Except.ok.injEq] at hr'
  subst hr'
  constructor
  · rintro ⟨items', ⟨rest, hrest⟩, hcomplete, hrec, -, -⟩
    exact hfol.not_defective hcomplete hrest (hret.instructions.symm.trans hrec)
  · intro hsound
    obtain ⟨hcomplete, hrest⟩ := hfol.complete hsound
    exact ⟨items, hrest, hcomplete, hret.instructions, hret.expanded, hret.length⟩

end Returned

/-- **Truncated or ill-formed pattern data is rejected**, and with `PEFError`, exactly when no
reading of the packed bytes that fills the section has raw bytes cut off at the end, or an
interleaving instruction with a count of zero, and none comes to an overrun. -/
theorem pidata_grammatical_iff {p : PEF} {section_ : Section} {packed : List UInt8}
    (hfirst : p.patternSection = some section_)
    (hpacked : p.rawSection section_.index = .ok packed) :
    ((∀ r, p.pidata true = .ok r → ∃ items, Grammatical packed section_ r items) ∧
      ∀ e, p.pidata true = .error e → ∃ t, e = .pefError t) ↔
    (¬ ∃ items, Follows packed section_.unpackedSize 0 0 items ∧ ∃ i ∈ items, i.Defective) ∧
      ¬ Overruns packed section_.unpackedSize 0 0 := by
  constructor
  · rintro ⟨haccepted, hraised⟩
    constructor
    · rintro ⟨items, hfol, i, hi, hdefect⟩
      obtain ⟨r, hr, -⟩ := hfol.pidata hfirst hpacked
      exact (grammatical_iff hfirst hpacked hr hfol).mp (haccepted r hr) i hi hdefect
    · intro hover
      obtain ⟨t, ht⟩ := hraised _ (hover.pidata hfirst hpacked)
      cases ht
  · rintro ⟨hnone, hover⟩
    refine ⟨fun r hr => ?_, fun e he => ?_⟩
    · obtain ⟨items, hret⟩ := pidata_returns hfirst hpacked hr
      refine (grammatical_iff hfirst hpacked hr hret.follows).mpr fun i hi hdefect => ?_
      exact hnone ⟨items, hret.follows, i, hi, hdefect⟩
    · rw [pidata_eq hfirst hpacked] at he
      cases hexpand : expandPacked packed section_.unpackedSize with
      | error e' =>
        rw [hexpand] at he
        cases he
        exact (expandPacked_raises hexpand).resolve_right hover
      | ok s =>
        rw [hexpand] at he
        cases he

theorem pidata_grammatical_iff_fivePatterns :
    ((∀ r, fivePatternsPef.pidata true = .ok r →
        ∃ items, Grammatical fivePacked fivePatternsSection r items) ∧
      ∀ e, fivePatternsPef.pidata true = .error e → ∃ t, e = .pefError t) ↔
    (¬ ∃ items, Follows fivePacked 13 0 0 items ∧ ∃ i ∈ items, i.Defective) ∧
      ¬ Overruns fivePacked 13 0 0 :=
  pidata_grammatical_iff rfl rfl

/-- A container whose pattern data ends within a block of two bytes. -/
def cutPattern : List UInt8 :=
  PEF.joy ++ PEF.peff ++ List.replicate 24 0 ++ [0, 1] ++ List.replicate 6 0 ++
    (List.replicate 8 0 ++ [0, 0, 0, 1] ++ [0, 0, 0, 1] ++ [0, 0, 0, 2] ++ [0, 0, 0, 68] ++
      [2, 0, 0, 0]) ++
    [0x22, 0xAA]

/-- The section of that container. -/
def cutPatternSection : Section := ⟨0, .patternInitializedData, 0, 1, 1, 2, 68, 1⟩

/-- What `PEF.init` makes of it. -/
def cutPatternPef : PEF where
  data := cutPattern
  sections := [cutPatternSection]
  loader := []
  loaderHeader := none
  libraries := []
  imports := []
  relocHeaders := []

set_option maxRecDepth 4000 in
/-- The one byte there is is taken for the block. -/
theorem cutPattern_accepted :
    PEF.init cutPattern = .ok cutPatternPef ∧
    cutPatternPef.patternSection = some cutPatternSection ∧
    cutPatternPef.rawSection 0 = .ok [0x22, 0xAA] ∧
    ¬ ((∀ r, cutPatternPef.pidata true = .ok r →
        ∃ items, Grammatical [0x22, 0xAA] cutPatternSection r items) ∧
      ∀ e, cutPatternPef.pidata true = .error e → ∃ t, e = .pefError t) := by
  refine ⟨rfl, rfl, rfl, fun h => ?_⟩
  have hreads : Reads ⟨1, 2, 0, 0, 0⟩ [0x22] :=
    .grammar (.plain (by decide) (by decide) (by decide) (by decide)
      (.short (n := 2) (by decide) (by decide))) fun _ => by decide
  have hfol : Follows [0x22, 0xAA] 1 0 0 [⟨⟨1, 2, 0, 0, 0⟩, [0x22], [0xAA]⟩] :=
    .step (by decide) (by decide) (show _ = [0x22] ++ [0xAA] from rfl) hreads rfl
      ⟨by decide, by decide, by decide⟩
      (.stop (fun hgo => absurd hgo.2 (by decide)) rfl)
  obtain ⟨r, hr, -⟩ : ∃ r, cutPatternPef.pidata true = .ok r ∧
      Returns [0x22, 0xAA] cutPatternSection r _ := Follows.pidata rfl rfl hfol
  have hsound := (grammatical_iff rfl rfl hr hfol).mp (h.1 r hr)
  exact hsound _ List.mem_cons_self (.inl (by decide))

end Cwhost.Pef
