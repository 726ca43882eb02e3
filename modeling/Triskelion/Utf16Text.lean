import Mathlib.Data.List.Basic
import Mathlib.Data.List.DropRight

/-! Text as a list of Unicode scalar values, its UTF-16 code units, and their
little-endian bytes. Decoding is lossy: a surrogate without its partner is read
as the replacement character, and an odd last byte is dropped. -/

namespace Triskelion
open List
open UInt16 (ofNat toNat_ofNat')

abbrev Str := List Char

namespace Utf16Text

def encodeChar (c : Char) : List UInt16 :=
  if c.toNat < 0x10000 then [ofNat c.toNat]
  else [ofNat (0xD800 + (c.toNat - 0x10000) / 0x400),
    ofNat (0xDC00 + (c.toNat - 0x10000) % 0x400)]

def encodeUtf16 (s : Str) : List UInt16 := s.flatMap encodeChar

def isHighSurrogate (u : UInt16) : Bool := 0xD800 ≤ u.toNat && u.toNat < 0xDC00

def isLowSurrogate (u : UInt16) : Bool := 0xDC00 ≤ u.toNat && u.toNat < 0xE000

def fromUtf16Lossy : List UInt16 → Str
  | [] => []
  | [u] => [if isHighSurrogate u || isLowSurrogate u then '�' else Char.ofNat u.toNat]
  | u :: v :: rest =>
    if isHighSurrogate u then
      if isLowSurrogate v then
        Char.ofNat (0x10000 + (u.toNat - 0xD800) * 0x400 + (v.toNat - 0xDC00)) ::
          fromUtf16Lossy rest
      else '�' :: fromUtf16Lossy (v :: rest)
    else if isLowSurrogate u then '�' :: fromUtf16Lossy (v :: rest)
    else Char.ofNat u.toNat :: fromUtf16Lossy (v :: rest)

def leBytes (units : List UInt16) : List UInt8 :=
  units.flatMap fun u => [UInt8.ofNat (u.toNat % 256), UInt8.ofNat (u.toNat / 256)]

/-- `chunks_exact(2)` and `u16::from_le_bytes`. -/
def ofLeBytes : List UInt8 → List UInt16
  | a :: b :: rest => ofNat (a.toNat + 256 * b.toNat) :: ofLeBytes rest
  | _ => []

def trimmedText (bytes : List UInt8) : Str :=
  (fromUtf16Lossy (ofLeBytes bytes)).rdropWhile (· == '\x00')

variable {rest : List UInt16}

theorem fromUtf16Lossy_unit {u : UInt16} (plain : u.toNat < 0xD800 ∨ 0xDFFF < u.toNat) :
    fromUtf16Lossy (u :: rest) = Char.ofNat u.toNat :: fromUtf16Lossy rest := by
  have notHigh : isHighSurrogate u = false := by simp [isHighSurrogate]; omega
  have notLow : isLowSurrogate u = false := by simp [isLowSurrogate]; omega
  cases rest with
  | nil | cons v rest => simp [fromUtf16Lossy, notHigh, notLow]

theorem fromUtf16Lossy_encodeChar (c : Char) (rest : List UInt16) :
    fromUtf16Lossy (encodeChar c ++ rest) = c :: fromUtf16Lossy rest := by
  have bounds : c.toNat < 0xD800 ∨ 0xDFFF < c.toNat ∧ c.toNat < 0x110000 := c.valid
  rw [encodeChar]
  split
  · have value : (ofNat c.toNat).toNat = c.toNat := by
      rw [toNat_ofNat']; omega
    rw [singleton_append, fromUtf16Lossy_unit (by omega), value, Char.ofNat_toNat]
  · have high : (ofNat (0xD800 + (c.toNat - 0x10000) / 0x400)).toNat =
        0xD800 + (c.toNat - 0x10000) / 0x400 := by
      rw [toNat_ofNat']; omega
    have low : (ofNat (0xDC00 + (c.toNat - 0x10000) % 0x400)).toNat =
        0xDC00 + (c.toNat - 0x10000) % 0x400 := by
      rw [toNat_ofNat']; omega
    have isHigh : isHighSurrogate (ofNat (0xD800 + (c.toNat - 0x10000) / 0x400)) := by
      rw [isHighSurrogate]; simp; omega
    have isLow : isLowSurrogate (ofNat (0xDC00 + (c.toNat - 0x10000) % 0x400)) := by
      rw [isLowSurrogate]; simp; omega
    have value : 0x10000 + (0xD800 + (c.toNat - 0x10000) / 0x400 - 0xD800) * 0x400 +
        (0xDC00 + (c.toNat - 0x10000) % 0x400 - 0xDC00) = c.toNat := by omega
    simp only [cons_append, nil_append, fromUtf16Lossy, isHigh, isLow, if_true, high,
      low, value, Char.ofNat_toNat]

variable {s : Str}

theorem fromUtf16Lossy_encodeUtf16 : fromUtf16Lossy (encodeUtf16 s) = s := by
  induction s with
  | nil => rfl
  | cons c rest ih =>
    rw [encodeUtf16, flatMap_cons, fromUtf16Lossy_encodeChar]
    exact congrArg _ ih

theorem ofLeBytes_leBytes (units : List UInt16) : ofLeBytes (leBytes units) = units := by
  induction units with
  | nil => rfl
  | cons u rest ih =>
    have bound := u.toNat_lt
    have value : (UInt8.ofNat (u.toNat % 256)).toNat +
        256 * (UInt8.ofNat (u.toNat / 256)).toNat = u.toNat := by
      rw [UInt8.toNat_ofNat', UInt8.toNat_ofNat']; omega
    rw [leBytes, flatMap_cons]
    simp only [cons_append, nil_append, ofLeBytes, value, UInt16.ofNat_toNat]
    exact congrArg _ ih

end Utf16Text
end Triskelion
