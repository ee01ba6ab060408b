import Cwhost.Lib.Layout

/-!
# UTF-16, big endian

A code point is one unit of 16 bits, or a surrogate pair: a high unit of `[0xD800, 0xDC00)` and a
low one of `[0xDC00, 0xE000)`. A text (of code points that are no surrogates themselves) is the
sequence of its units, most significant byte first. The decoder is strict: it takes nothing from an
odd number of bytes, or from a unit that lacks its other half.

* `utf16Units`, `encodeUtf16`; `unitsOf`, `decodeUnits`, `decodeUtf16`.
* `unitsOf_encode`: the units of an encoded text. `decodeUtf16_encode`: **the round trip**.
-/

namespace Cwhost.Lib

/-- The units of a code point. -/
def utf16Units (c : Char) : List Nat :=
  if c.toNat < 0x10000 then [c.toNat]
  else [0xD800 + (c.toNat - 0x10000) / 0x400, 0xDC00 + (c.toNat - 0x10000) % 0x400]

/-- The bytes of units. -/
def unitBytes (units : List Nat) : List UInt8 := units.flatMap (toBE 2)

/-- `text.encode("utf-16-be")`. -/
def encodeUtf16 (text : List Char) : List UInt8 := unitBytes (text.flatMap utf16Units)

/-- The units of bytes, if they are not cut off in the middle of one. -/
def unitsOf : List UInt8 → Option (List Nat)
  | [] => some []
  | [_] => none
  | a :: b :: rest => (unitsOf rest).map (beNat [a, b] :: ·)

/-- The text of units. -/
def decodeUnits : List Nat → Option (List Char)
  | [] => some []
  | [u] => if 0xD800 ≤ u ∧ u < 0xE000 then none else some [Char.ofNat u]
  | u :: v :: rest =>
    if 0xD800 ≤ u ∧ u < 0xE000 then
      if u < 0xDC00 ∧ 0xDC00 ≤ v ∧ v < 0xE000 then
        (decodeUnits rest).map
          (Char.ofNat (0x10000 + (u - 0xD800) * 0x400 + (v - 0xDC00)) :: ·)
      else none
    else (decodeUnits (v :: rest)).map (Char.ofNat u :: ·)

/-- `raw.decode("utf-16-be")`. -/
def decodeUtf16 (raw : List UInt8) : Option (List Char) := (unitsOf raw).bind decodeUnits

/-! ## Units -/

/-- A code point is no surrogate. -/
theorem char_ranges (c : Char) : c.toNat < 0xD800 ∨ 0xDFFF < c.toNat ∧ c.toNat < 0x110000 := c.valid

theorem utf16Units_lt (c : Char) : ∀ u ∈ utf16Units c, u < 2 ^ 16 := by
  have hvalid := char_ranges c
  unfold utf16Units
  split
  · rename_i hsmall
    exact List.forall_mem_singleton.mpr (by omega)
  · refine List.forall_mem_cons.mpr ⟨by omega, List.forall_mem_singleton.mpr ?_⟩
    have hlow := Nat.mod_lt (c.toNat - 0x10000) (show 0 < 0x400 by decide)
    omega

theorem textUnits_lt (text : List Char) : ∀ u ∈ text.flatMap utf16Units, u < 2 ^ 16 := by
  intro u hu
  obtain ⟨c, -, hc⟩ := List.mem_flatMap.mp hu
  exact utf16Units_lt c u hc

/-- A character takes two units at most. -/
theorem textUnits_length (text : List Char) :
    (text.flatMap utf16Units).length ≤ 2 * text.length := by
  induction text with
  | nil => exact Nat.le_refl 0
  | cons c text ih =>
    have hc : (utf16Units c).length ≤ 2 := by
      unfold utf16Units
      split <;> simp
    rw [List.flatMap_cons, List.length_append, List.length_cons]
    omega

/-- A code point outside the surrogates begins a text of its own. -/
theorem decodeUnits_cons {u : Nat} (h : ¬ (0xD800 ≤ u ∧ u < 0xE000)) (rest : List Nat) :
    decodeUnits (u :: rest) = (decodeUnits rest).map (Char.ofNat u :: ·) := by
  cases rest with
  | nil => exact if_neg h
  | cons v rest => exact if_neg h

/-- **One code point** is taken back from its units. -/
theorem decodeUnits_char (c : Char) (rest : List Nat) :
    decodeUnits (utf16Units c ++ rest) = (decodeUnits rest).map (c :: ·) := by
  have hvalid := char_ranges c
  unfold utf16Units
  split
  · have hplain : ¬ (0xD800 ≤ c.toNat ∧ c.toNat < 0xE000) := by omega
    rw [List.singleton_append, decodeUnits_cons hplain, Char.ofNat_toNat]
  · rename_i hlarge
    have hmod := Nat.mod_lt (c.toNat - 0x10000) (show 0 < 0x400 by decide)
    have hdiv := Nat.div_add_mod (c.toNat - 0x10000) 0x400
    have hpair : 0x10000 + (0xD800 + (c.toNat - 0x10000) / 0x400 - 0xD800) * 0x400 +
        (0xDC00 + (c.toNat - 0x10000) % 0x400 - 0xDC00) = c.toNat := by omega
    rw [List.cons_append, List.singleton_append, decodeUnits, if_pos (by omega),
      if_pos (by omega), hpair, Char.ofNat_toNat]

/-- **A text** is taken back from its units. -/
theorem decodeUnits_text (text : List Char) :
    decodeUnits (text.flatMap utf16Units) = some text := by
  induction text with
  | nil => rfl
  | cons c text ih => rw [List.flatMap_cons, decodeUnits_char, ih, Option.map_some]

/-! ## Bytes -/

theorem unitBytes_cons (u : Nat) (units : List Nat) :
    unitBytes (u :: units) = toBE 2 u ++ unitBytes units := List.flatMap_cons

/-- **Units** are taken back from their bytes. -/
theorem unitsOf_bytes {units : List Nat} (h : ∀ u ∈ units, u < 2 ^ 16) :
    unitsOf (unitBytes units) = some units := by
  induction units with
  | nil => rfl
  | cons u units ih =>
    have hu : beNat (toBE 2 u) = u := beNat_toBE_of_lt (h u List.mem_cons_self)
    rw [unitBytes_cons]
    show (unitsOf (unitBytes units)).map (beNat (toBE 2 u) :: ·) = _
    rw [ih fun v hv => h v (List.mem_cons_of_mem _ hv), hu, Option.map_some]

theorem unitsOf_encode (text : List Char) :
    unitsOf (encodeUtf16 text) = some (text.flatMap utf16Units) :=
  unitsOf_bytes (textUnits_lt text)

/-- **UTF-16 round trip.** -/
theorem decodeUtf16_encode (text : List Char) : decodeUtf16 (encodeUtf16 text) = some text := by
  unfold decodeUtf16
  rw [unitsOf_encode, Option.bind_some, decodeUnits_text]

end Cwhost.Lib
