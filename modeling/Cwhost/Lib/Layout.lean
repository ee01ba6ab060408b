import Cwhost.Lib.ByteMemory

/-!
# Bytes at an offset

`Sits data off bytes`: the bytes `bytes` lie in `data` from the offset `off` on. A file format
is a conjunction of such facts, one for each field, table or payload, whatever else the file
holds and in whatever order its parts come; a decoder is correct when it reads back every part
that the format says sits somewhere.

* `Sits.append_iff`: consecutive parts sit one after the other. `Sits.trans`: a part of a part.
* `Sits.slice_eq`, `Sits.be_eq`: what reading at that offset gives; `bytes_of_sits`: in a memory.
* `chunks_eq`: cutting a concatenation of blocks of one size.
* `assign`: writing a part, and `Sits.assign_self`, `Sits.assign_before`.
* `signed_eq`: a two's complement field.
-/

namespace Cwhost.Lib

/-- `bytes` lie in `data` from `off` on. -/
def Sits (data : List UInt8) (off : Nat) (bytes : List UInt8) : Prop := bytes <+: data.drop off

instance (data : List UInt8) (off : Nat) (bytes : List UInt8) : Decidable (Sits data off bytes) :=
  inferInstanceAs (Decidable (bytes <+: data.drop off))

/-- The big-endian number of `w` bytes at `off`. -/
def be (data : List UInt8) (off w : Nat) : Nat := beNat (slice data off (off + w))

/-- The number a `w`-bit two's complement word denotes. -/
def signed (w v : Nat) : Int := if v < 2 ^ (w - 1) then v else (v : Int) - 2 ^ w

namespace Sits

variable {data a b bytes : List UInt8} {off off' : Nat}

/-- **Consecutive parts** sit one after the other. -/
theorem append_iff : Sits data off (a ++ b) ↔ Sits data off a ∧ Sits data (off + a.length) b := by
  unfold Sits
  constructor
  · rintro ⟨rest, h⟩
    refine ⟨⟨b ++ rest, by rw [← List.append_assoc, h]⟩, ⟨rest, ?_⟩⟩
    rw [← List.drop_drop, ← h, List.append_assoc, List.drop_left]
  · rintro ⟨⟨rest, ha⟩, ⟨rest', hb⟩⟩
    refine ⟨rest', ?_⟩
    rw [← List.drop_drop, ← ha, List.drop_left] at hb
    rw [List.append_assoc, hb, ha]

theorem left (h : Sits data off (a ++ b)) : Sits data off a := (append_iff.mp h).1

theorem right (h : Sits data off (a ++ b)) : Sits data (off + a.length) b := (append_iff.mp h).2

/-- **A part of a part** sits in the whole. -/
theorem trans (h : Sits data off a) (h' : Sits a off' b) : Sits data (off + off') b := by
  obtain ⟨rest, h⟩ := h
  obtain ⟨rest', h'⟩ := h'
  refine ⟨rest' ++ rest.drop (off' - a.length), ?_⟩
  rw [← List.drop_drop, ← h, List.drop_append, ← h', List.append_assoc]

/-- What sits somewhere ends inside the data. -/
theorem length_le (h : Sits data off bytes) (hne : bytes ≠ []) :
    off + bytes.length ≤ data.length := by
  have hlen := List.IsPrefix.length_le h
  have hpos := List.length_pos_iff.mpr hne
  rw [List.length_drop] at hlen
  omega

/-- **Reading back** what sits at an offset. -/
theorem slice_eq (h : Sits data off bytes) : slice data off (off + bytes.length) = bytes := by
  obtain ⟨rest, h⟩ := h
  unfold slice
  rw [← h, Nat.add_sub_cancel_left, List.take_left]

theorem slice_eq_of_length {n : Nat} (h : Sits data off bytes) (hn : bytes.length = n) :
    slice data off (off + n) = bytes := by
  rw [← hn, h.slice_eq]

/-- **Reading back a number.** -/
theorem be_eq {w n : Nat} (h : Sits data off (toBE w n)) (hn : n < 256 ^ w) :
    be data off w = n := by
  unfold be
  rw [h.slice_eq_of_length (toBE_length w n), beNat_toBE_of_lt hn]

/-- What sits at an offset, byte by byte. -/
theorem iff_getElem? :
    Sits data off bytes ↔ ∀ i (h : i < bytes.length), data[off + i]? = some bytes[i] := by
  unfold Sits
  rw [List.prefix_iff_getElem?]
  simp only [List.getElem?_drop]

/-- What sits in bytes that stay. -/
theorem congr {data' : List UInt8} (h : Sits data off bytes)
    (hsame : ∀ i, off ≤ i → i < off + bytes.length → data'[i]? = data[i]?) :
    Sits data' off bytes := by
  rw [iff_getElem?] at h ⊢
  intro i hi
  rw [hsame (off + i) (Nat.le_add_right _ _) (by omega), h i hi]

/-- The first byte of what sits at an offset. -/
theorem getD_eq {x : UInt8} {rest : List UInt8} (h : Sits data off (x :: rest)) (d : UInt8) :
    data.getD off d = x := by
  obtain ⟨tail, h⟩ := h
  have hget : data[off]? = some x := by
    rw [← List.head?_drop, ← h]
    rfl
  rw [List.getD_eq_getElem?_getD, hget, Option.getD_some]

end Sits

/-- A part of the bytes of a memory. -/
theorem slice_bytes {M : ByteMemory} (s : M.State) (a : Nat) {n off k : Nat} (h : off + k ≤ n) :
    slice (ByteMemory.bytes s a n) off (off + k) = ByteMemory.bytes s (a + off) k := by
  unfold slice
  refine List.ext_getElem ?_ fun i h1 h2 => ?_
  · simp only [List.length_take, List.length_drop, ByteMemory.bytes_length]
    omega
  · simp only [ByteMemory.bytes, List.getElem_take, List.getElem_drop, List.getElem_map,
      List.getElem_range, Nat.add_assoc]

theorem slice_of_drop {buf x post : List UInt8} {pos : Nat} (h : buf.drop pos = x ++ post) :
    slice buf pos (pos + x.length) = x := by
  rw [slice, h, Nat.add_sub_cancel_left, List.take_left']
  rfl

theorem drop_of_drop {buf x post : List UInt8} {pos : Nat} (h : buf.drop pos = x ++ post) :
    buf.drop (pos + x.length) = post := by
  rw [← List.drop_drop, h, List.drop_left']
  rfl

/-- Cutting the concatenation of blocks of one size gives the blocks back. -/
theorem chunks_eq {buf post : List UInt8} {size : Nat} (custom : List (List UInt8)) {pos : Nat}
    (h : buf.drop pos = custom.flatten ++ post) (hs : ∀ block ∈ custom, block.length = size) :
    (List.range custom.length).map
      (fun i => slice buf (pos + i * size) (pos + (i + 1) * size)) = custom := by
  induction custom generalizing pos with
  | nil => rfl
  | cons block custom ih =>
    have hsize : block.length = size := hs block List.mem_cons_self
    rw [List.flatten_cons, List.append_assoc] at h
    have htail := drop_of_drop h
    rw [hsize] at htail
    rw [List.length_cons, List.range_succ_eq_map, List.map_cons, List.map_map]
    congr 1
    · rw [← hsize, Nat.zero_mul, Nat.add_zero, Nat.zero_add, Nat.one_mul]
      exact slice_of_drop h
    · conv_rhs => rw [← ih htail fun b hb => hs b (List.mem_cons_of_mem _ hb)]
      refine List.map_congr_left fun i _ => ?_
      simp only [Function.comp_apply, Nat.succ_eq_add_one]
      rw [show pos + (i + 1) * size = pos + size + i * size by ring,
        show pos + (i + 1 + 1) * size = pos + size + (i + 1) * size by ring]

theorem length_flatten_of_size {size : Nat} {custom : List (List UInt8)}
    (hs : ∀ block ∈ custom, block.length = size) :
    custom.flatten.length = size * custom.length := by
  induction custom with
  | nil => rfl
  | cons block custom ih =>
    rw [List.flatten_cons, List.length_append, hs block List.mem_cons_self,
      ih fun b hb => hs b (List.mem_cons_of_mem _ hb), List.length_cons]
    ring

/-! ## Writing a part -/

/-- `data[start:stop] = bytes`. -/
def assign (data : List UInt8) (start stop : Nat) (bytes : List UInt8) : List UInt8 :=
  data.take start ++ bytes ++ data.drop stop

section Assign

variable {data bytes part : List UInt8} {start off : Nat}

theorem assign_length (h : start + bytes.length ≤ data.length) :
    (assign data start (start + bytes.length) bytes).length = data.length := by
  unfold assign
  simp only [List.length_append, List.length_take, List.length_drop]
  omega

/-- What was written sits there. -/
theorem Sits.assign_self (h : start + bytes.length ≤ data.length) :
    Sits (assign data start (start + bytes.length) bytes) start bytes := by
  have hlen : (data.take start).length = start := List.length_take_of_le (by omega)
  refine ⟨data.drop (start + bytes.length), ?_⟩
  unfold assign
  rw [List.append_assoc, List.drop_left' hlen]

/-- What sits before it stays. -/
theorem Sits.assign_before (h : start + bytes.length ≤ data.length) (hpart : Sits data off part)
    (hle : off + part.length ≤ start) :
    Sits (assign data start (start + bytes.length) bytes) off part := by
  obtain ⟨rest, hrest⟩ := hpart
  have hoff : off ≤ (data.take start).length := by
    rw [List.length_take]
    omega
  have htake : (data.drop off).take (start - off) =
      part ++ rest.take (start - off - part.length) := by
    rw [← hrest, List.take_append, List.take_of_length_le (by omega)]
  unfold assign Sits
  rw [List.append_assoc, List.drop_append_of_le_length hoff, List.drop_take, htake,
    List.append_assoc]
  exact List.prefix_append _ _

/-- What sits outside it stays. -/
theorem getElem?_assign {i : Nat} (h : start + bytes.length ≤ data.length)
    (hi : i < start ∨ start + bytes.length ≤ i) :
    (assign data start (start + bytes.length) bytes)[i]? = data[i]? := by
  unfold assign
  have htake : (data.take start).length = start := List.length_take_of_le (by omega)
  rcases hi with hi | hi
  · rw [List.append_assoc, List.getElem?_append_left (by omega), List.getElem?_take_of_lt hi]
  · have hlen : (data.take start ++ bytes).length = start + bytes.length := by
      rw [List.length_append, htake]
    rw [List.getElem?_append_right (by omega), hlen, List.getElem?_drop]
    congr 1
    omega

/-- What was written, byte by byte. -/
theorem getElem?_assign_self {i : Nat} (h : start + bytes.length ≤ data.length)
    (hi : start ≤ i ∧ i < start + bytes.length) :
    (assign data start (start + bytes.length) bytes)[i]? = bytes[i - start]? := by
  have htake : (data.take start).length = start := List.length_take_of_le (by omega)
  unfold assign
  rw [List.append_assoc, List.getElem?_append_right (by omega), htake,
    List.getElem?_append_left (by omega)]

end Assign

/-- **A two's complement field** denotes the number it encodes. -/
theorem signed_eq {w : Nat} {v : Int} (hw : 0 < w) (h1 : -2 ^ (w - 1) ≤ v) (h2 : v < 2 ^ (w - 1)) :
    signed w (v % 2 ^ w).toNat = v := by
  have hp : (2 : Int) ^ w = 2 * 2 ^ (w - 1) := by
    rw [← pow_succ', Nat.sub_add_cancel hw]
  have hcast : ((2 ^ (w - 1) : Nat) : Int) = 2 ^ (w - 1) := by push_cast; rfl
  unfold signed
  by_cases hv : 0 ≤ v
  · rw [Int.emod_eq_of_lt hv (by omega), if_pos (by omega), Int.toNat_of_nonneg hv]
  · have hmod : v % 2 ^ w = v + 2 ^ w := by
      rw [← Int.add_emod_right, Int.emod_eq_of_lt (by omega) (by omega)]
    rw [hmod, if_neg (by omega)]
    omega

end Cwhost.Lib
