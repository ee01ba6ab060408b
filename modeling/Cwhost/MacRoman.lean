import Cwhost.Errors

/-!
# The `mac_roman` codec

Every byte has a character, so decoding never fails. No two bytes share one, so decoding can be
undone: `decodeMacRoman_encode`, `encode_decodeMacRoman`.
-/

namespace Cwhost

/-- The characters of the bytes `0x80` to `0xFF`. -/
def macRomanHigh : List Char :=
  ['Ä', 'Å', 'Ç', 'É', 'Ñ', 'Ö', 'Ü', 'á', 'à', 'â', 'ä', 'ã', 'å', 'ç', 'é', 'è',
   'ê', 'ë', 'í', 'ì', 'î', 'ï', 'ñ', 'ó', 'ò', 'ô', 'ö', 'õ', 'ú', 'ù', 'û', 'ü',
   '†', '°', '¢', '£', '§', '•', '¶', 'ß', '®', '©', '™', '´', '¨', '≠', 'Æ', 'Ø',
   '∞', '±', '≤', '≥', '¥', 'µ', '∂', '∑', '∏', 'π', '∫', 'ª', 'º', 'Ω', 'æ', 'ø',
   '¿', '¡', '¬', '√', 'ƒ', '≈', '∆', '«', '»', '…', '\u00A0', 'À', 'Ã', 'Õ', 'Œ', 'œ',
   '–', '—', '“', '”', '‘', '’', '÷', '◊', 'ÿ', 'Ÿ', '⁄', '€', '‹', '›', 'ﬁ', 'ﬂ',
   '‡', '·', '‚', '„', '‰', 'Â', 'Ê', 'Á', 'Ë', 'È', 'Í', 'Î', 'Ï', 'Ì', 'Ó', 'Ô',
   '\uF8FF', 'Ò', 'Ú', 'Û', 'Ù', 'ı', 'ˆ', '˜', '¯', '˘', '˙', '˚', '¸', '˝', '˛', 'ˇ']

/-- The character of one byte. -/
def macRomanChar (b : UInt8) : Char :=
  if b < 0x80 then Char.ofNat b.toNat else macRomanHigh.getD (b.toNat - 0x80) '\uFFFD'

/-- `bytes.decode("mac_roman", "replace")`. -/
def decodeMacRoman (bytes : List UInt8) : Str := bytes.map macRomanChar

/-- The byte of one character, if it has one. -/
def macRomanByte (c : Char) : Option UInt8 :=
  if c.toNat < 0x80 then some (UInt8.ofNat c.toNat)
  else (macRomanHigh.idxOf? c).map fun i => UInt8.ofNat (0x80 + i)

/-- `s.encode("mac_roman")`; `none` is `UnicodeEncodeError`. -/
def encodeMacRoman (s : Str) : Option (List UInt8) := s.mapM macRomanByte

example : macRomanChar 0x8E = 'é' := by decide

/-! ## Encoding and decoding undo each other -/

theorem macRomanByte_char (b : UInt8) : macRomanByte (macRomanChar b) = some b := by
  have hall : ∀ n < 256, macRomanByte (macRomanChar (UInt8.ofNat n)) = some (UInt8.ofNat n) := by
    decide +kernel
  have hb := hall b.toNat b.toNat_lt
  rwa [UInt8.ofNat_toNat] at hb

theorem macRomanChar_of_byte {c : Char} {b : UInt8} (h : macRomanByte c = some b) :
    macRomanChar b = c := by
  unfold macRomanByte at h
  split at h
  · rename_i hc
    rw [Option.some.injEq] at h
    subst h
    have htoNat : (UInt8.ofNat c.toNat).toNat = c.toNat := by
      rw [UInt8.toNat_ofNat', Nat.mod_eq_of_lt (by omega)]
    have hlt : UInt8.ofNat c.toNat < 0x80 := by
      rw [UInt8.lt_iff_toNat_lt, htoNat]
      exact hc
    rw [macRomanChar, if_pos hlt, htoNat, Char.ofNat_toNat]
  · obtain ⟨i, hi, rfl⟩ := Option.map_eq_some_iff.mp h
    obtain ⟨hlen, hget, -⟩ := List.idxOf?_eq_some_iff.mp hi
    have h128 : i < 128 := hlen
    have htoNat : (UInt8.ofNat (0x80 + i)).toNat = 0x80 + i := by
      rw [UInt8.toNat_ofNat', Nat.mod_eq_of_lt (by omega)]
    have hge : ¬ UInt8.ofNat (0x80 + i) < 0x80 := by
      rw [UInt8.lt_iff_toNat_lt, htoNat]
      simp
    rw [macRomanChar, if_neg hge, htoNat, Nat.add_sub_cancel_left,
      List.getD_eq_getElem?_getD, List.getElem?_eq_getElem hlen, Option.getD_some]
    exact hget

/-- **Encoding undoes decoding.** -/
theorem encode_decodeMacRoman (bs : List UInt8) : encodeMacRoman (decodeMacRoman bs) = some bs := by
  unfold encodeMacRoman decodeMacRoman
  induction bs with
  | nil => rfl
  | cons b bs ih =>
    rw [List.map_cons, List.mapM_cons, macRomanByte_char, ih]
    rfl

/-- **Decoding undoes encoding.** -/
theorem decodeMacRoman_encode {s : Str} {bs : List UInt8} (h : encodeMacRoman s = some bs) :
    decodeMacRoman bs = s := by
  unfold encodeMacRoman at h
  induction s generalizing bs with
  | nil =>
    rw [List.mapM_nil] at h
    cases h
    rfl
  | cons c s ih =>
    rw [List.mapM_cons] at h
    obtain ⟨b, hb, h⟩ := Option.bind_eq_some_iff.mp h
    obtain ⟨rest, hrest, h⟩ := Option.bind_eq_some_iff.mp h
    cases h
    show macRomanChar b :: decodeMacRoman rest = c :: s
    rw [macRomanChar_of_byte hb, ih hrest]

/-- Every character has one byte. -/
theorem encodeMacRoman_length {s : Str} {bs : List UInt8} (h : encodeMacRoman s = some bs) :
    bs.length = s.length := by
  rw [← decodeMacRoman_encode h, decodeMacRoman, List.length_map]

end Cwhost
