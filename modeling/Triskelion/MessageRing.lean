import Mathlib.Data.List.Basic
import Mathlib.Data.UInt
import Mathlib.Logic.Function.Basic

/-! The message ring of a thread queue: free-running 64-bit positions over a
buffer of 256 slots. Seen from the daemon, one request at a time, it is a queue
of bounded length; the positions may wrap. -/

namespace Triskelion

open List Function
open UInt64 (ofNat reduceToNat toNat_add toNat_inj toNat_ofNat' toNat_sub)

structure QueuedMessage where
  win : UInt32
  msg : UInt32
  wparam : UInt64
  lparam : UInt64
  msgType : Int32
  x : Int32
  y : Int32
  time : UInt32
  pad : UInt32 × UInt32 := (0, 0)
deriving DecidableEq

def ringCapacity : Nat := 256

def ringSlot (pos : UInt64) : Fin ringCapacity :=
  ⟨(pos &&& 255).toNat, by
    have bound : (pos &&& 255).toNat ≤ 255 := by
      rw [UInt64.toNat_and]
      exact Nat.and_le_right
    unfold ringCapacity
    omega⟩

/-- The positions never stand further apart than the buffer is long. -/
structure MessageRing where
  writePos : UInt64
  readPos : UInt64
  buf : Fin ringCapacity → QueuedMessage
  fits : (writePos - readPos).toNat ≤ ringCapacity

namespace MessageRing

variable (r : MessageRing)

def count : Nat := (r.writePos - r.readPos).toNat

theorem count_write_succ (room : r.count < ringCapacity) :
    (r.writePos + 1 - r.readPos).toNat = r.count + 1 := by
  simp only [count, ringCapacity, toNat_sub, toNat_add, reduceToNat] at room ⊢
  omega

theorem count_read_succ (some_ : r.readPos ≠ r.writePos) :
    (r.writePos - (r.readPos + 1)).toNat + 1 = r.count := by
  have write := r.writePos.toNat_lt
  have read := r.readPos.toNat_lt
  rw [ne_eq, ← toNat_inj] at some_
  simp only [count, toNat_sub, toNat_add, reduceToNat]
  omega

theorem count_eq_zero : r.count = 0 ↔ r.readPos = r.writePos := by
  have write := r.writePos.toNat_lt
  have read := r.readPos.toNat_lt
  rw [count, toNat_sub, ← toNat_inj]
  omega

def push (msg : QueuedMessage) : Bool × MessageRing :=
  if room : (r.writePos - r.readPos).toNat < ringCapacity then
    (true, { r with
      writePos := r.writePos + 1
      buf := update r.buf (ringSlot r.writePos) msg
      fits := by have := r.count_write_succ room; rw [this]; exact room })
  else (false, r)

def pop : Option (QueuedMessage × MessageRing) :=
  if empty : r.readPos = r.writePos then none
  else some (r.buf (ringSlot r.readPos), { r with
    readPos := r.readPos + 1
    fits := by have := r.count_read_succ empty; have := r.fits; unfold count at *; omega })

def isEmpty : Bool := r.readPos = r.writePos

def contents : List QueuedMessage :=
  (List.range r.count).map fun i => r.buf (ringSlot (r.readPos + ofNat i))

theorem contents_length : r.contents.length = r.count := by simp [contents]

theorem ringSlot_val (pos : UInt64) : (ringSlot pos).val = pos.toNat % 256 := by
  exact Nat.and_two_pow_sub_one_eq_mod pos.toNat 8

theorem ringSlot_write_ne {i : Nat} (lt : i < r.count) (room : r.count < ringCapacity) :
    ringSlot (r.readPos + ofNat i) ≠ ringSlot r.writePos := by
  have read := r.readPos.toNat_lt
  rw [ne_eq, ← Fin.val_inj, ringSlot_val, ringSlot_val]
  simp only [count, ringCapacity, toNat_sub, toNat_add, toNat_ofNat'] at lt room ⊢
  omega

theorem writePos_eq : r.writePos = r.readPos + ofNat r.count := by
  have write := r.writePos.toNat_lt
  have read := r.readPos.toNat_lt
  rw [← toNat_inj]
  simp only [count, toNat_sub, toNat_add, toNat_ofNat']
  omega

variable {msg : QueuedMessage}

theorem push_contents_of_room (msg : QueuedMessage) (room : r.count < ringCapacity) :
    (r.push msg).1 ∧ (r.push msg).2.contents = r.contents ++ [msg] := by
  unfold push
  rw [dif_pos (show (r.writePos - r.readPos).toNat < ringCapacity from room)]
  refine ⟨rfl, ?_⟩
  simp only [contents, count]
  rw [r.count_write_succ room, range_succ, map_append, map_singleton]
  congr 1
  · apply map_congr_left
    intro i mem
    rw [update_of_ne (r.ringSlot_write_ne (mem_range.mp mem) room)]
  · rw [← r.writePos_eq, update_self]

theorem push_contents (msg : QueuedMessage) : (r.push msg).2.contents =
      if (r.push msg).1 then r.contents ++ [msg] else r.contents := by
  by_cases room : r.count < ringCapacity
  · obtain ⟨accepted, after⟩ := r.push_contents_of_room msg room
    rw [after, if_pos accepted]
  · have refused : r.push msg = (false, r) := dif_neg room
    rw [refused, if_neg Bool.false_ne_true]

theorem pop_eq_none : r.pop = none ↔ r.contents = [] := by
  rw [← length_eq_zero_iff, contents_length, count_eq_zero]
  unfold pop
  split <;> simp_all

theorem pop_contents {after : MessageRing} (h : r.pop = some (msg, after)) :
    r.contents = msg :: after.contents := by
  unfold pop at h
  split at h
  · cases h
  · next some_ =>
    obtain ⟨rfl, rfl⟩ := Prod.mk.inj (Option.some.inj h)
    have step := r.count_read_succ some_
    simp only [contents]
    rw [← step, range_succ_eq_map, map_cons, map_map]
    congr 1
    · simp
    · apply map_congr_left
      intro i _
      have shift : r.readPos + ofNat (i + 1) = r.readPos + 1 + ofNat i := by
        rw [← toNat_inj]
        simp only [toNat_add, toNat_ofNat', reduceToNat]
        omega
      simp only [comp_apply, Nat.succ_eq_add_one, shift]

end MessageRing
end Triskelion
