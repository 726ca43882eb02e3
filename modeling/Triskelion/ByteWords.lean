import Mathlib.Algebra.Group.Nat.Defs
import Mathlib.Data.List.Basic

/-! Words of 32 bits in a list of bytes, low byte first. A read or write that is not within
the bytes has no result. -/

namespace Triskelion.ByteWords

open List

def ofBytes (a b c d : UInt8) : UInt32 :=
  UInt32.ofNat (a.toNat + 256 * b.toNat + 65536 * c.toNat + 16777216 * d.toNat)

def byteOf (w : UInt32) (i : Nat) : UInt8 := UInt8.ofNat (w.toNat / 256 ^ i)

def leBytes (w : UInt32) : List UInt8 := [byteOf w 0, byteOf w 1, byteOf w 2, byteOf w 3]

variable {w : UInt32}

theorem ofBytes_byteOf : ofBytes (byteOf w 0) (byteOf w 1) (byteOf w 2) (byteOf w 3) = w := by
  have bound := w.toNat_lt
  apply UInt32.toNat_inj.mp
  simp only [ofBytes, byteOf, UInt32.toNat_ofNat', UInt8.toNat_ofNat']
  omega

def slice (bytes : List UInt8) (start stop : Nat) : Option (List UInt8) :=
  if start ≤ stop ∧ stop ≤ bytes.length then some ((bytes.take stop).drop start) else none

variable {bytes : List UInt8} {offset : Nat}

theorem slice_eq {start stop : Nat} (order : start ≤ stop) (inside : stop ≤ bytes.length) :
    slice bytes start stop = some ((bytes.take stop).drop start) :=
  if_pos ⟨order, inside⟩

def readWord (bytes : List UInt8) (offset : Nat) : Option UInt32 := do
  let a ← bytes[offset]?
  let b ← bytes[offset + 1]?
  let c ← bytes[offset + 2]?
  let d ← bytes[offset + 3]?
  return ofBytes a b c d

theorem readWord_isSome (inside : offset + 4 ≤ bytes.length) :
    ∃ w, readWord bytes offset = some w := by
  have read : ∀ i < 4, ∃ x, bytes[offset + i]? = some x := by
    intro i small
    exact ⟨_, getElem?_eq_getElem (by omega)⟩
  obtain ⟨a, at_a⟩ := read 0 (by omega)
  obtain ⟨b, at_b⟩ := read 1 (by omega)
  obtain ⟨c, at_c⟩ := read 2 (by omega)
  obtain ⟨d, at_d⟩ := read 3 (by omega)
  simp only [Nat.add_zero] at at_a
  simp [readWord, at_a, at_b, at_c, at_d]

theorem readWord_congr {other : List UInt8}
    (same : ∀ i < 4, bytes[offset + i]? = other[offset + i]?) :
    readWord bytes offset = readWord other offset := by
  have first := same 0 (by omega)
  simp only [Nat.add_zero] at first
  simp only [readWord, first, same 1 (by omega), same 2 (by omega), same 3 (by omega)]

def writeWord (bytes : List UInt8) (offset : Nat) (w : UInt32) : Option (List UInt8) :=
  if offset + 4 ≤ bytes.length then
    some (bytes.take offset ++ leBytes w ++ bytes.drop (offset + 4))
  else none

structure Written (bytes : List UInt8) (offset : Nat) (w : UInt32) (after : List UInt8) : Prop where
  result : writeWord bytes offset w = some after
  length : after.length = bytes.length
  read : readWord after offset = some w
  apart : ∀ i, i < offset ∨ offset + 4 ≤ i → after[i]? = bytes[i]?

theorem written_of_inside (inside : offset + 4 ≤ bytes.length) (w : UInt32) :
    ∃ after, Written bytes offset w after := by
  have taken : (bytes.take offset).length = offset := by
    rw [length_take]
    omega
  have behind : (bytes.take offset ++ leBytes w).length = offset + 4 := by
    rw [length_append, taken]
    rfl
  refine ⟨_, if_pos inside, ?_, ?_, fun i outside => ?_⟩
  · rw [length_append, length_drop]
    omega
  · have at_word : ∀ i < 4, (bytes.take offset ++ leBytes w ++ bytes.drop (offset + 4))[offset + i]? =
        (leBytes w)[i]? := by
      intro i small
      rw [getElem?_append_left (by omega), getElem?_append_right (by omega)]
      congr 1
      omega
    have first := at_word 0 (by omega)
    simp only [Nat.add_zero] at first
    simp only [readWord, first, at_word 1 (by omega), at_word 2 (by omega), at_word 3 (by omega)]
    simp [leBytes, ofBytes_byteOf]
  · rcases outside with before | after
    · rw [getElem?_append_left (by omega), getElem?_append_left (by omega),
        getElem?_take_of_lt before]
    · rw [getElem?_append_right (by omega), getElem?_drop]
      congr 1
      omega

def words : List UInt8 → List UInt32
  | a :: b :: c :: d :: rest => ofBytes a b c d :: words rest
  | _ => []

end Triskelion.ByteWords
