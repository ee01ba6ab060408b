import Cwhost.Errors
import Cwhost.Lib.Layout
import Cwhost.Lib.Outcome
import Cwhost.Lib.Ranges

/-!
# The guest's memory (`guest.py`)

`Guest` wraps the emulator. Its memory is an arbitrary `ByteMemory`: Unicorn is not part of the
repository, and the laws of `ByteMemory` are what its documentation says of `mem_map`,
`mem_read` and `mem_write` (`map_mapped`, `read_mapped`, `write_byte`, …). The page permissions
`Guest.map` passes on restrict the emulated code only, so they are checked here and dropped.

* `read_spec`, `write_spec`, `w32_spec`: host accesses to mapped memory succeed,
  and a write changes exactly the bytes it names.
-/

namespace Cwhost

open Lib

/-- The emulated machine, as far as the memory-side modules see it. -/
structure Guest (M : ByteMemory) where
  uc : M.State

namespace Guest

variable {M : ByteMemory}

/-- `PAGE_SIZE`. -/
def pageSize : Nat := 0x1000

/-- `SCRATCH_BASE`. -/
def scratchBase : Nat := 0x2A000000

/-- `SCRATCH_SIZE`. -/
def scratchSize : Nat := 16 <<< 20

/-- `TRAP_BASE`. -/
def trapBase : Nat := 0x28000000

/-- `TRAP_SIZE`. -/
def trapSize : Nat := 0x10000

/-- `STACK_TOP`. -/
def stackTop : Nat := 0x70000000

/-- `STACK_SIZE`. -/
def stackSize : Nat := 16 <<< 20

/-- `HEAP_BASE`. -/
def heapBase : Nat := 0x30000000

/-- `_align_up(value, alignment)`, for a power of two. -/
def alignUp (value alignment : Nat) : Nat := (value + alignment - 1) / alignment * alignment

/-- `_align_down(value, alignment)`, for a power of two. -/
def alignDown (value alignment : Nat) : Nat := value / alignment * alignment

theorem alignDown_le (value alignment : Nat) : alignDown value alignment ≤ value :=
  Nat.div_mul_le_self value alignment

theorem le_alignUp (value : Nat) {alignment : Nat} (h : 0 < alignment) :
    value ≤ alignUp value alignment := by
  unfold alignUp
  have h1 := Nat.div_add_mod (value + alignment - 1) alignment
  have h2 := Nat.mod_lt (value + alignment - 1) h
  rw [Nat.mul_comm] at h1
  omega

/-- `Guest.map`: map the pages that meet the range. -/
def map (addr size : Nat) (perms : Str) : EStateM Exc (Guest M) Unit := do
  if size = 0 then
    throw (.hostError "cannot map an empty guest range")
  if ¬ perms ⊆ ['r', 'w', 'x'] then
    throw (.hostError s!"invalid guest memory permissions: {pyRepr perms}")
  let start := alignDown addr pageSize
  let stop := alignUp (addr + size) pageSize
  let g ← get
  match M.memMap g.uc start (stop - start) with
  | some uc => set { g with uc := uc }
  | none => throw .ucError

/-- The mappings of `Guest.__init__`. -/
def init : EStateM Exc (Guest M) Unit := do
  map trapBase trapSize ['r', 'x']
  map (stackTop - stackSize) stackSize ['r', 'w']
  map scratchBase scratchSize ['r', 'w']

/-- `Guest.protect`: what it changes restricts the emulated code only. -/
def protect (size : Nat) (perms : Str) : EStateM Exc (Guest M) Unit := do
  if size ≠ 0 then
    if ¬ perms ⊆ ['r', 'w', 'x'] then
      throw (.hostError s!"invalid guest memory permissions: {pyRepr perms}")

/-- `Guest.read`. -/
def read (addr n : Nat) : EStateM Exc (Guest M) (List UInt8) := do
  let g ← get
  match M.memRead g.uc (addr % 2 ^ 32) n with
  | some data => return data
  | none => throw .ucError

/-- `Guest.write`. -/
def write (addr : Nat) (data : List UInt8) : EStateM Exc (Guest M) Unit := do
  let g ← get
  match M.memWrite g.uc (addr % 2 ^ 32) data with
  | some uc => set { g with uc := uc }
  | none => throw .ucError

/-- `Guest.u32`. -/
def u32 (addr : Nat) : EStateM Exc (Guest M) Nat := do
  let data ← read addr 4
  return beNat data

/-- `Guest.u8`. -/
def u8 (addr : Nat) : EStateM Exc (Guest M) Nat := do
  let data ← read addr 1
  return beNat data

/-- `Guest.u16`. -/
def u16 (addr : Nat) : EStateM Exc (Guest M) Nat := do
  let data ← read addr 2
  return beNat data

/-- `Guest.w8`. -/
def w8 (addr value : Nat) : EStateM Exc (Guest M) Unit := write addr (toBE 1 (value % 2 ^ 8))

/-- `Guest.w16`. -/
def w16 (addr value : Nat) : EStateM Exc (Guest M) Unit := write addr (toBE 2 (value % 2 ^ 16))

/-- `Guest.w32`. -/
def w32 (addr value : Nat) : EStateM Exc (Guest M) Unit := write addr (toBE 4 (value % 2 ^ 32))

/-! ## Specifications -/

/-- The byte the host reads at `x`. -/
def byte (g : Guest M) (x : Nat) : UInt8 := M.byte g.uc x

/-- The big-endian word the host reads at `x`. -/
def word (g : Guest M) (x : Nat) : Nat := ByteMemory.word g.uc x

/-- The range is mapped and lies below `2 ^ 32`. -/
structure Accessible (g : Guest M) (addr n : Nat) : Prop where
  mapped : ByteMemory.MappedRange g.uc addr n
  below : addr + n ≤ 2 ^ 32

theorem Accessible.mod {g : Guest M} {addr n : Nat} (h : g.Accessible addr n) (hn : 0 < n) :
    addr % 2 ^ 32 = addr :=
  Nat.mod_eq_of_lt (by have := h.below; omega)

theorem word_congr {g g' : Guest M} {a : Nat}
    (h : ∀ x, a ≤ x → x < a + 4 → g'.byte x = g.byte x) : g'.word a = g.word a :=
  ByteMemory.word_congr h

/-- What a successful write has done to the guest. -/
structure Written (g g' : Guest M) (addr : Nat) (data : List UInt8) : Prop where
  mapped : ∀ x, M.mapped g'.uc x ↔ M.mapped g.uc x
  data_eq : ByteMemory.bytes g'.uc addr data.length = data
  frame : ∀ x, ¬ Has (addr, data.length) x → g'.byte x = g.byte x

/-- What a successful `map` has asked the emulator for. -/
theorem map_does (addr size : Nat) (perms : Str) (g : Guest M) :
    wp (map addr size perms)
      (fun _ g' => M.memMap g.uc (alignDown addr pageSize)
        (alignUp (addr + size) pageSize - alignDown addr pageSize) = some g'.uc)
      (fun _ _ => True) g := by
  simp only [map, wp_bind, wp_get, wp_ite, wp_throw]
  refine ⟨fun _ => trivial, fun _ => ⟨fun _ => trivial, fun _ => ?_⟩⟩
  cases hm : M.memMap g.uc (alignDown addr pageSize)
    (alignUp (addr + size) pageSize - alignDown addr pageSize) with
  | none => trivial
  | some uc => rfl

/-- **Mapping** a range backs it with memory and takes nothing away. -/
theorem map_spec (addr size : Nat) (perms : Str) (g : Guest M) :
    wp (map addr size perms)
      (fun _ g' => ByteMemory.MappedRange g'.uc addr size ∧
        ∀ x, M.mapped g.uc x → M.mapped g'.uc x)
      (fun _ _ => True) g := by
  refine wp_mono (map_does addr size perms g) (fun _ g' hm => ?_) fun _ _ h => h
  refine ⟨fun x h1 h2 => (M.map_mapped hm x).mpr (Or.inr ?_),
    fun x hx => (M.map_mapped hm x).mpr (Or.inl hx)⟩
  have hdown := alignDown_le addr pageSize
  have hup := le_alignUp (addr + size) (show 0 < pageSize by decide)
  omega

/-- **Reading** accessible memory returns its bytes and changes nothing. -/
theorem read_spec {g : Guest M} {addr n : Nat} (h : g.Accessible addr n) (hn : 0 < n) :
    wp (read addr n) (fun data g' => g' = g ∧ data = ByteMemory.bytes g.uc addr n)
      (fun _ _ => False) g := by
  simp only [read, wp_bind, wp_get]
  rw [h.mod hn, ByteMemory.memRead_eq h.mapped]
  exact ⟨rfl, rfl⟩

/-- The same as an equation, for no bytes as well. -/
theorem read_eq {g : Guest M} {addr n : Nat} (h : g.Accessible addr n) :
    read addr n g = .ok (ByteMemory.bytes g.uc addr n) g := by
  cases n with
  | zero =>
    have hempty : ByteMemory.MappedRange g.uc (addr % 2 ^ 32) 0 :=
      fun x hx hx' => absurd hx' (Nat.not_lt.mpr hx)
    rw [read, bind_of_ok (get_eq g), ByteMemory.memRead_eq hempty]
    rfl
  | succ n =>
    obtain ⟨data, g', hok, rfl, rfl⟩ := wp_exists_ok (read_spec h (Nat.succ_pos n))
    exact hok

/-- The word at an accessible address. -/
theorem u32_eq {g : Guest M} {addr : Nat} (h : g.Accessible addr 4) :
    u32 addr g = .ok (g.word addr) g := by
  rw [u32, bind_of_ok (read_eq h)]
  rfl

/-- **Writing** mapped memory changes exactly the bytes written. -/
theorem write_written {g : Guest M} {addr : Nat} {data : List UInt8}
    (h : ByteMemory.MappedRange g.uc (addr % 2 ^ 32) data.length) :
    wp (write addr data) (fun _ g' => Written g g' (addr % 2 ^ 32) data) (fun _ _ => False) g := by
  obtain ⟨uc, huc⟩ := M.write_ok h
  simp only [write, wp_bind, wp_get]
  rw [huc]
  exact ⟨M.write_mapped huc, ByteMemory.bytes_write_self huc,
    fun x hx => ByteMemory.byte_write_of_not_has huc hx⟩

theorem write_spec {g : Guest M} {addr : Nat} {data : List UInt8}
    (h : g.Accessible addr data.length) (hn : 0 < data.length) :
    wp (write addr data) (fun _ g' => Written g g' addr data) (fun _ _ => False) g := by
  have haddr := h.mod hn
  rw [← haddr] at h
  have hwritten := write_written h.mapped
  rwa [haddr] at hwritten

/-- Writing inside an accessible range, nothing included. -/
theorem write_within {g : Guest M} {a n addr : Nat} {data : List UInt8} (h : g.Accessible a n)
    (h1 : a ≤ addr) (h2 : addr + data.length ≤ a + n) :
    wp (write addr data) (fun _ g' => Written g g' addr data) (fun _ _ => False) g := by
  cases data with
  | nil =>
    have hempty : ByteMemory.MappedRange g.uc (addr % 2 ^ 32) ([] : List UInt8).length :=
      fun x hx hx' => absurd hx' (Nat.not_lt.mpr hx)
    refine wp_mono (write_written hempty) (fun _ g' hw => ?_) fun _ _ he => he
    exact ⟨hw.mapped, rfl, fun x _ => hw.frame x fun hx => absurd hx.2 (Nat.not_lt.mpr hx.1)⟩
  | cons b data =>
    have hsub : g.Accessible addr (b :: data).length :=
      ⟨fun x hx hx' => h.mapped x (by omega) (by omega), by have := h.below; omega⟩
    exact write_spec hsub (Nat.succ_pos _)

/-- A write anywhere, if it succeeds; one that fails changes nothing. -/
theorem write_any (g : Guest M) (addr : Nat) (data : List UInt8) :
    wp (write addr data) (fun _ g' => Written g g' (addr % 2 ^ 32) data) (fun _ g' => g' = g)
      g := by
  simp only [write, wp_bind, wp_get]
  cases hw : M.memWrite g.uc (addr % 2 ^ 32) data with
  | none => rfl
  | some uc =>
    exact ⟨M.write_mapped hw, ByteMemory.bytes_write_self hw,
      fun x hx => ByteMemory.byte_write_of_not_has hw hx⟩

/-- A write anywhere changes no mapping; one that fails changes nothing. -/
theorem write_mapped (g : Guest M) (addr : Nat) (data : List UInt8) :
    wp (write addr data) (fun _ g' => ∀ x, M.mapped g'.uc x ↔ M.mapped g.uc x)
      (fun _ g' => g' = g) g := by
  simp only [write, wp_bind, wp_get]
  cases hw : M.memWrite g.uc (addr % 2 ^ 32) data with
  | none => rfl
  | some uc => exact M.write_mapped hw

/-- What was mapped is still mapped. -/
theorem Written.mappedRange {g g' : Guest M} {addr : Nat} {data : List UInt8}
    (h : Written g g' addr data) {a n : Nat} (hmapped : ByteMemory.MappedRange g.uc a n) :
    ByteMemory.MappedRange g'.uc a n := fun x h1 h2 => (h.mapped x).mpr (hmapped x h1 h2)

/-- The bytes of a range that was written into. -/
theorem Written.bytes_eq {g g' : Guest M} {a n offset : Nat} {data : List UInt8}
    (h : Written g g' (a + offset) data) (hn : offset + data.length ≤ n) :
    ByteMemory.bytes g'.uc a n =
      assign (ByteMemory.bytes g.uc a n) offset (offset + data.length) data := by
  have hlen : offset + data.length ≤ (ByteMemory.bytes g.uc a n).length := by
    rwa [ByteMemory.bytes_length]
  refine List.ext_getElem? fun i => ?_
  have hbyte : ∀ (t : Guest M) (b k j : Nat), j < k →
      (ByteMemory.bytes t.uc b k)[j]? = some (t.byte (b + j)) := fun t b k j hj => by
    rw [ByteMemory.bytes, List.getElem?_map, List.getElem?_range hj]
    rfl
  by_cases hi : i < n
  · rw [hbyte g' a n i hi]
    by_cases hin : offset ≤ i ∧ i < offset + data.length
    · have hdata := hbyte g' (a + offset) data.length (i - offset) (by omega)
      rw [h.data_eq, Nat.add_assoc, Nat.add_sub_cancel' hin.1] at hdata
      rw [getElem?_assign_self hlen hin, hdata]
    · rw [getElem?_assign hlen (by omega), hbyte g a n i hi, h.frame _ fun hx => hin ?_]
      have h1 := hx.1
      have h2 := hx.2
      simp only at h1 h2
      omega
  · rw [List.getElem?_eq_none (by rw [ByteMemory.bytes_length]; omega),
      List.getElem?_eq_none (by rw [assign_length hlen, ByteMemory.bytes_length]; omega)]

/-- Nothing is written. -/
theorem Written.refl (g : Guest M) (addr : Nat) : Written g g addr [] :=
  ⟨fun _ => Iff.rfl, rfl, fun _ _ => rfl⟩

/-- Two writes, one right behind the other. -/
theorem Written.append {g g₁ g₂ : Guest M} {addr : Nat} {data data' : List UInt8}
    (h : Written g g₁ addr data) (h' : Written g₁ g₂ (addr + data.length) data') :
    Written g g₂ addr (data ++ data') where
  mapped x := (h'.mapped x).trans (h.mapped x)
  data_eq := by
    have hfirst : ByteMemory.bytes g₂.uc addr data.length = data := by
      rw [ByteMemory.bytes_congr fun x h1 h2 => h'.frame x fun hx => ?_, h.data_eq]
      exact absurd hx.1 (by simp only; omega)
    rw [List.length_append, ByteMemory.bytes_append, hfirst, h'.data_eq]
  frame x hx := by
    refine (h'.frame x fun hx' => hx ?_).trans (h.frame x fun hx' => hx ?_)
    all_goals
      unfold Has at hx' ⊢
      rw [List.length_append]
      omega

theorem w32_spec {g : Guest M} {addr value : Nat} (h : g.Accessible addr 4) :
    wp (w32 addr value)
      (fun _ g' => Written g g' addr (toBE 4 (value % 2 ^ 32)) ∧ g'.word addr = value % 2 ^ 32)
      (fun _ _ => False) g := by
  have hlen : (toBE 4 (value % 2 ^ 32)).length = 4 := toBE_length 4 _
  refine wp_mono (write_spec (hlen ▸ h) (by omega)) (fun _ g' hw => ⟨hw, ?_⟩) fun _ _ h' => h'
  have hb := hw.data_eq
  rw [hlen] at hb
  show beNat (ByteMemory.bytes g'.uc addr 4) = _
  rw [hb]
  exact beNat_toBE_of_lt (Nat.mod_lt _ (by decide))

/-- Bytes outside the written range make up the same word as before. -/
theorem Written.word_eq {g g' : Guest M} {addr b : Nat} {data : List UInt8}
    (h : Written g g' addr data) (hd : ∀ x, Has (b, 4) x → ¬ Has (addr, data.length) x) :
    g'.word b = g.word b :=
  word_congr fun x h1 h2 => h.frame x (hd x ⟨h1, h2⟩)

theorem Accessible.sub {g : Guest M} {a n b m : Nat} (h : g.Accessible a n) (h1 : a ≤ b)
    (h2 : b + m ≤ a + n) : g.Accessible b m :=
  ⟨fun x hx hx' => h.mapped x (by omega) (by omega), by have := h.below; omega⟩

end Guest

end Cwhost
