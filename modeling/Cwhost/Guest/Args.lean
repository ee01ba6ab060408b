import Cwhost.Guest.Machine
import Cwhost.Lib.Layout

/-!
# The arguments of an import (`guest.py`, `Guest.args`)

A caller passes its arguments in a row of parameter words: one word for a narrow argument, two for
a 64-bit one or a double. Words 0 to 7 are `r3` to `r10`, word `w ≥ 8` stands at `r1 + 24 + 4 w`;
the `k`-th double is in FPR `k`, and uses up its words. `Placed` is this rule, with whatever the
caller has left in the unused high bits of a narrow argument.

`args_placed`: **`args` gives back what the caller has placed**, at any mix of types and wherever
the row passes from the registers to the stack.

Out of scope: more than thirteen doubles, for which the convention has no register.
-/

namespace Cwhost

open Lib

/-- The types of `Guest.args`. -/
inductive ArgType
  | u32
  | ptr
  | s16
  | u16
  | u8
  | f64
  | u64
  | s64
  deriving DecidableEq, Repr

namespace ArgType

/-- The name of a type in a specification. -/
def name : ArgType → Str
  | .u32 => ['u', '3', '2']
  | .ptr => ['p', 't', 'r']
  | .s16 => ['s', '1', '6']
  | .u16 => ['u', '1', '6']
  | .u8 => ['u', '8']
  | .f64 => ['f', '6', '4']
  | .u64 => ['u', '6', '4']
  | .s64 => ['s', '6', '4']

/-- `valid`. -/
def valid : List ArgType := [.u32, .ptr, .s16, .u16, .u8, .f64, .u64, .s64]

/-- The type a name stands for. -/
def ofName? (item : Str) : Option ArgType := valid.find? fun t => t.name = item

/-- How many parameter words an argument takes. -/
def words : ArgType → Nat
  | .f64 | .u64 | .s64 => 2
  | .u32 | .ptr | .s16 | .u16 | .u8 => 1

/-- How many floating-point registers an argument takes. -/
def floats : ArgType → Nat
  | .f64 => 1
  | .u32 | .ptr | .s16 | .u16 | .u8 | .u64 | .s64 => 0

/-- The bits of an integer argument. -/
def bits : ArgType → Nat
  | .u8 => 8
  | .s16 | .u16 => 16
  | .u32 | .ptr => 32
  | .u64 | .s64 | .f64 => 64

@[simp] theorem ofName?_name (t : ArgType) : ofName? t.name = some t := by
  cases t <;> decide

end ArgType

/-- An argument, a double by its bits. -/
inductive ArgValue
  | int (value : Int)
  | double (bits : BitVec 64)
  deriving DecidableEq, Repr

namespace Guest

variable {M : ByteMemory}

/-- `gpr`. -/
def gpr (regs : Regs) (n : Nat) : EStateM Exc (Guest M) Nat :=
  if h : n < 32 then pure (regs.gpr ⟨n, h⟩).toNat
  else throw (.hostError s!"invalid PPC GPR {n}")

/-- `fpr`. -/
def fpr (regs : Regs) (n : Nat) : EStateM Exc (Guest M) (BitVec 64) :=
  if h : n < 32 then pure (regs.fpr ⟨n, h⟩)
  else throw (.hostError s!"invalid PPC FPR {n}")

/-- The parameter word `word`, as `args` reads it for one item or for half of one. -/
def paramWord (regs : Regs) (word : Nat) : EStateM Exc (Guest M) Nat :=
  if word < 8 then gpr regs (3 + word)
  else do
    let r1 ← gpr regs 1
    u32 (r1 + 24 + 4 * word)

/-- The two words of a 64-bit item. -/
def paramPair (regs : Regs) (word : Nat) : EStateM Exc (Guest M) Nat := do
  let high ← paramWord regs word
  let low ← paramWord regs (word + 1)
  return high <<< 32 ||| low

/-- One item of `args`. -/
def arg (regs : Regs) (item : ArgType) (word floatIndex : Nat) :
    EStateM Exc (Guest M) ArgValue :=
  match item with
  | .f64 => .double <$> fpr regs (1 + floatIndex)
  | .u64 => (fun value : Nat => .int value) <$> paramPair regs word
  | .s64 => (fun value : Nat => .int (signed 64 value)) <$> paramPair regs word
  | .u32 | .ptr => (fun raw : Nat => .int raw) <$> paramWord regs word
  | .u8 => (fun raw : Nat => .int (raw % 2 ^ 8 : Nat)) <$> paramWord regs word
  | .u16 => (fun raw : Nat => .int (raw % 2 ^ 16 : Nat)) <$> paramWord regs word
  | .s16 => (fun raw : Nat => .int (signed 16 (raw % 2 ^ 16))) <$> paramWord regs word

/-- The loop of `args`. -/
def argsFrom (regs : Regs) : List ArgType → Nat → Nat → EStateM Exc (Guest M) (List ArgValue)
  | [], _, _ => pure []
  | item :: rest, word, floatIndex => do
    let value ← arg regs item word floatIndex
    let values ← argsFrom regs rest (word + item.words) (floatIndex + item.floats)
    return value :: values

/-- `args`. -/
def args (regs : Regs) (spec : List Str) : EStateM Exc (Guest M) (List ArgValue) :=
  match spec.find? fun item => (ArgType.ofName? item).isNone with
  | some bad => throw (.hostError s!"unsupported guest argument type {pyRepr bad}")
  | none => argsFrom regs (spec.filterMap ArgType.ofName?) 0 0

/-! ## The rule of the caller -/

/-- Where the parameter word `w ≥ 8` stands, for the stack pointer `r1`. -/
def stackSlot (r1 w : Nat) : Nat := (r1 + 24 + 4 * w) % 2 ^ 32

/-- The parameter word `w` holds `v`: words 0 to 7 in registers, the others in the caller's
frame. -/
inductive HoldsWord (regs : Regs) (g : Guest M) : Nat → Nat → Prop
  | register (w : Nat) (h : w < 8) :
    HoldsWord regs g w (regs.gpr ⟨3 + w, by omega⟩).toNat
  | stack (w : Nat) (h : 8 ≤ w)
    (mapped : ByteMemory.MappedRange g.uc (stackSlot (regs.gpr 1).toNat w) 4) :
    HoldsWord regs g w (g.word (stackSlot (regs.gpr 1).toNat w))

/-- The value belongs to the type. -/
def InRange : ArgType → ArgValue → Prop
  | .f64, .double _ => True
  | .s16, .int v => -2 ^ 15 ≤ v ∧ v < 2 ^ 15
  | .s64, .int v => -2 ^ 63 ≤ v ∧ v < 2 ^ 63
  | .u32, .int v | .ptr, .int v => 0 ≤ v ∧ v < 2 ^ 32
  | .u16, .int v => 0 ≤ v ∧ v < 2 ^ 16
  | .u8, .int v => 0 ≤ v ∧ v < 2 ^ 8
  | .u64, .int v => 0 ≤ v ∧ v < 2 ^ 64
  | _, _ => False

/-- The two's complement word for an integer argument. -/
def encoding (item : ArgType) (v : Int) : Nat := (v % 2 ^ item.bits).toNat

/-- The argument stands in the parameter words from `word` on, a double in the register after the
first `floatIndex`. The high bits of a narrow argument may hold anything. -/
def Holds (regs : Regs) (g : Guest M) (word floatIndex : Nat) : ArgType → ArgValue → Prop
  | .f64, .double bits => ∀ h : 1 + floatIndex < 32, regs.fpr ⟨1 + floatIndex, h⟩ = bits
  | .u64, .int v | .s64, .int v => ∃ high low, HoldsWord regs g word high ∧
      HoldsWord regs g (word + 1) low ∧ high * 2 ^ 32 + low = encoding .u64 v
  | item, .int v => ∃ raw, HoldsWord regs g word raw ∧ raw % 2 ^ item.bits = encoding item v
  | _, .double _ => False

/-- **The rule of the caller**, for the arguments from the parameter word `word` on. -/
def Placed (regs : Regs) (g : Guest M) : List (ArgType × ArgValue) → Nat → Nat → Prop
  | [], _, _ => True
  | (item, value) :: rest, word, floatIndex =>
    InRange item value ∧ Holds regs g word floatIndex item value ∧
      Placed regs g rest (word + item.words) (floatIndex + item.floats)

/-! ## One argument -/

section Argument

variable {regs : Regs} {g : Guest M} {word floatIndex : Nat}

theorem HoldsWord.lt {v : Nat} (h : HoldsWord regs g word v) : v < 2 ^ 32 := by
  cases h with
  | register h => exact BitVec.isLt _
  | stack h mapped =>
    refine (beNat_lt _).trans_le ?_
    rw [ByteMemory.bytes_length]
    decide

/-- **A parameter word** is read where the caller has put it. -/
theorem HoldsWord.read {v : Nat} (h : HoldsWord regs g word v) :
    paramWord regs word g = .ok v g := by
  cases h with
  | register h =>
    rw [paramWord, if_pos h, gpr, dif_pos (by omega)]
    rfl
  | stack h mapped =>
    rw [paramWord, if_neg (by omega), gpr, dif_pos (by decide)]
    show u32 ((regs.gpr 1).toNat + 24 + 4 * word) g = _
    have hdata : Guest.read ((regs.gpr 1).toNat + 24 + 4 * word) 4 g =
        .ok (ByteMemory.bytes g.uc (stackSlot (regs.gpr 1).toNat word) 4) g := by
      have hread := ByteMemory.memRead_eq mapped
      unfold stackSlot at hread ⊢
      rw [Guest.read, bind_of_ok (get_eq _)]
      simp only [hread]
      rfl
    rw [u32, bind_of_ok hdata]
    rfl

theorem paramPair_read {high low : Nat} (hhigh : HoldsWord regs g word high)
    (hlow : HoldsWord regs g (word + 1) low) :
    paramPair regs word g = .ok (high * 2 ^ 32 + low) g := by
  rw [paramPair, bind_of_ok hhigh.read, bind_of_ok hlow.read,
    ← Nat.shiftLeft_add_eq_or_of_lt hlow.lt, Nat.shiftLeft_eq]
  rfl

/-- A nonnegative argument is its word. -/
theorem encoding_natCast (item : ArgType) {v : Int} (h₀ : 0 ≤ v) (h : v < 2 ^ item.bits) :
    (encoding item v : Int) = v := by
  rw [encoding, Int.emod_eq_of_lt h₀ h, Int.toNat_of_nonneg h₀]

/-- **One argument**, read as it was placed. -/
theorem arg_placed {item : ArgType} {value : ArgValue} (hrange : InRange item value)
    (hholds : Holds regs g word floatIndex item value) (hfloat : floatIndex + item.floats < 32) :
    arg regs item word floatIndex g = .ok value g := by
  cases value with
  | double bits =>
    cases item with
    | f64 =>
      have hreg : 1 + floatIndex < 32 := by
        rw [ArgType.floats] at hfloat
        omega
      refine map_of_ok _ ?_
      rw [fpr, dif_pos hreg, hholds hreg]
      rfl
    | u32 | ptr | s16 | u16 | u8 | u64 | s64 => exact hrange.elim
  | int v =>
    cases item with
    | f64 => exact hrange.elim
    | u64 =>
      obtain ⟨high, low, hhigh, hlow, heq⟩ := hholds
      have hv := encoding_natCast .u64 hrange.1 hrange.2
      rw [arg, map_of_ok _ (paramPair_read hhigh hlow), heq, hv]
    | s64 =>
      obtain ⟨high, low, hhigh, hlow, heq⟩ := hholds
      have hv : signed 64 (encoding .u64 v) = v := signed_eq (by decide) hrange.1 hrange.2
      rw [arg, map_of_ok _ (paramPair_read hhigh hlow), heq, hv]
    | u32 | ptr =>
      obtain ⟨raw, hraw, heq⟩ := hholds
      have hv := encoding_natCast .u32 hrange.1 hrange.2
      have hmod : raw % 2 ^ 32 = raw := Nat.mod_eq_of_lt hraw.lt
      rw [arg, map_of_ok _ hraw.read, ← hmod]
      exact congrArg (fun i => EStateM.Result.ok (ArgValue.int i) g)
        ((congrArg Nat.cast heq).trans hv)
    | u8 =>
      obtain ⟨raw, hraw, heq⟩ := hholds
      have hv := encoding_natCast .u8 hrange.1 hrange.2
      rw [ArgType.bits] at heq
      rw [arg, map_of_ok _ hraw.read, heq, hv]
    | u16 =>
      obtain ⟨raw, hraw, heq⟩ := hholds
      have hv := encoding_natCast .u16 hrange.1 hrange.2
      rw [ArgType.bits] at heq
      rw [arg, map_of_ok _ hraw.read, heq, hv]
    | s16 =>
      obtain ⟨raw, hraw, heq⟩ := hholds
      have hv : signed 16 (encoding .s16 v) = v := signed_eq (by decide) hrange.1 hrange.2
      rw [ArgType.bits] at heq
      rw [arg, map_of_ok _ hraw.read, heq, hv]

/-- **The loop of `args`** reads the arguments from `word` on. -/
theorem argsFrom_placed {passed : List (ArgType × ArgValue)}
    (hplaced : Placed regs g passed word floatIndex)
    (hfloats : floatIndex + (passed.map fun a => a.1.floats).sum < 32) :
    argsFrom regs (passed.map Prod.fst) word floatIndex g = .ok (passed.map Prod.snd) g := by
  induction passed generalizing word floatIndex with
  | nil => rfl
  | cons a rest ih =>
    obtain ⟨item, value⟩ := a
    obtain ⟨hrange, hholds, hrest⟩ := hplaced
    rw [List.map_cons, List.sum_cons] at hfloats
    simp only at hfloats
    rw [List.map_cons, argsFrom, bind_of_ok (arg_placed hrange hholds (by omega)),
      bind_of_ok (ih hrest (by omega))]
    rfl

end Argument

/-- The names of the types are known, and stand for the types. -/
theorem args_names (regs : Regs) (items : List ArgType) :
    args regs (items.map ArgType.name) =
      (argsFrom regs items 0 0 : EStateM Exc (Guest M) (List ArgValue)) := by
  have hvalid : (items.map ArgType.name).find? (fun item => (ArgType.ofName? item).isNone) =
      none := by
    rw [List.find?_eq_none]
    intro name hname
    obtain ⟨item, -, rfl⟩ := List.mem_map.mp hname
    simp
  have hitems : (items.map ArgType.name).filterMap ArgType.ofName? = items := by
    rw [List.filterMap_map]
    exact (List.filterMap_congr fun item _ => ArgType.ofName?_name item).trans List.filterMap_some
  rw [args, hvalid]
  simp only
  rw [hitems]

theorem sum_floats (passed : List (ArgType × ArgValue)) :
    (passed.map fun a => a.1.floats).sum = (passed.filter fun a => a.1 = .f64).length := by
  induction passed with
  | nil => rfl
  | cons a rest ih =>
    obtain ⟨item, value⟩ := a
    rw [List.map_cons, List.sum_cons, ih]
    cases item with
    | f64 =>
      rw [List.filter_cons_of_pos (by simp), List.length_cons, Nat.add_comm]
      rfl
    | u32 | ptr | s16 | u16 | u8 | u64 | s64 =>
      rw [List.filter_cons_of_neg (by simp)]
      exact Nat.zero_add _

/-- **Argument marshalling.** What a caller has placed by the rule, with at most thirteen doubles,
`args` gives back, and it changes nothing. -/
theorem args_placed {regs : Regs} {g : Guest M} {passed : List (ArgType × ArgValue)}
    (hfloats : (passed.filter fun a => a.1 = .f64).length ≤ 13)
    (hplaced : Placed regs g passed 0 0) :
    args regs (passed.map fun a => a.1.name) g = .ok (passed.map Prod.snd) g := by
  have hnames := args_names (M := M) regs (passed.map Prod.fst)
  rw [List.map_map] at hnames
  have hsum := sum_floats passed
  rw [show (passed.map fun a => a.1.name) = passed.map (ArgType.name ∘ Prod.fst) from rfl, hnames]
  exact argsFrom_placed hplaced (by omega)

/-- Registers that differ, `r1` pointing to a frame. -/
def someRegs : Regs where
  gpr i := if i.val = 1 then 0x1000 else 0xABCD8000 + BitVec.ofNat 32 i.val
  fpr i := BitVec.ofNat 64 i.val
  pc := 0
  lr := 0
  ctr := 0
  cr := 0
  xer := 0
  msr := 0
  fpscr := 0

/-- A guest whose memory is mapped, each byte the last one of its address. -/
def someGuest : Guest ByteMemory.flat where
  uc := (⟨fun _ => true, UInt8.ofNat⟩ : ByteMemory.Flat)

/-- A 64-bit argument in the last register and on the stack, behind narrow ones and a double. -/
theorem args_placed_straddling :
    args someRegs [['s', '1', '6'], ['f', '6', '4'], ['u', '8'], ['p', 't', 'r'], ['u', '6', '4'],
      ['s', '6', '4'], ['u', '1', '6']] someGuest =
    .ok [.int (-32765), .double 1, .int 6, .int 0xABCD8007, .int 0xABCD8008ABCD8009,
      .int (0xABCD800A38393A3B - 2 ^ 64), .int 0x3E3F] someGuest :=
  @args_placed ByteMemory.flat someRegs someGuest
    [(.s16, .int (-32765)), (.f64, .double 1), (.u8, .int 6), (.ptr, .int 0xABCD8007),
      (.u64, .int 0xABCD8008ABCD8009), (.s64, .int (0xABCD800A38393A3B - 2 ^ 64)),
      (.u16, .int 0x3E3F)] (by decide)
    ⟨⟨by decide, by decide⟩, ⟨_, .register 0 (by decide), by decide⟩,
      trivial, fun _ => rfl,
      ⟨by decide, by decide⟩, ⟨_, .register 3 (by decide), by decide⟩,
      ⟨by decide, by decide⟩, ⟨_, .register 4 (by decide), by decide⟩,
      ⟨by decide, by decide⟩, ⟨_, _, .register 5 (by decide), .register 6 (by decide), by decide⟩,
      ⟨by decide, by decide⟩,
      ⟨_, _, .register 7 (by decide), .stack 8 (by decide) (fun _ _ _ => rfl), by decide⟩,
      ⟨by decide, by decide⟩, ⟨_, .stack 9 (by decide) (fun _ _ _ => rfl), by decide⟩, trivial⟩

end Guest

end Cwhost
