import Mathlib.Data.List.Basic
import Mathlib.Algebra.Group.Nat.Defs

/-! Memory as a byte at every address, and words in it, low byte first. Two facts about a store
carry everything: the range that was written holds what was written, and every other range holds
what it held. -/

namespace Triskelion.ByteMemory

open List

/-! ### Words as bytes -/

def leBytes : Nat → Nat → List UInt8
  | 0, _ => []
  | k + 1, n => UInt8.ofNat n :: leBytes k (n / 256)

def ofLe : List UInt8 → Nat
  | [] => 0
  | b :: rest => b.toNat + 256 * ofLe rest

variable {k : Nat}

@[simp] theorem length_leBytes (k n : Nat) : (leBytes k n).length = k := by
  induction k generalizing n with
  | zero => rfl
  | succ k ih => rw [leBytes, length_cons, ih]

theorem ofLe_leBytes (n : Nat) : ofLe (leBytes k n) = n % 256 ^ k := by
  induction k generalizing n with
  | zero => rw [leBytes, ofLe, Nat.pow_zero, Nat.mod_one]
  | succ k ih =>
    have split : 256 ^ (k + 1) = 256 * 256 ^ k := Nat.pow_succ'
    rw [leBytes, ofLe, ih, split, Nat.mod_mul, UInt8.toNat_ofNat']

/-! ### Ranges -/

abbrev Memory := Nat → UInt8

def load (m : Memory) (a n : Nat) : List UInt8 := (List.range n).map fun i => m (a + i)

def store (m : Memory) (a : Nat) (bytes : List UInt8) : Memory := fun i =>
  if a ≤ i ∧ i < a + bytes.length then bytes.getD (i - a) 0 else m i

variable {m m' : Memory} {a b n : Nat} {bytes : List UInt8}

@[simp] theorem length_load : (load m a n).length = n := by
  rw [load, length_map, length_range]

variable {i : Nat} {w : UInt32}

theorem store_apart (apart : i < a ∨ a + bytes.length ≤ i) : store m a bytes i = m i := by
  rw [store, if_neg]
  omega

theorem store_at (lt : i < bytes.length) : store m a bytes (a + i) = bytes.getD i 0 := by
  rw [store, if_pos (by omega), Nat.add_sub_cancel_left]

theorem load_congr (same : ∀ i < n, m' (a + i) = m (a + i)) : load m' a n = load m a n := by
  refine map_congr_left fun i mem => ?_
  exact same i (mem_range.mp mem)

theorem load_store (m : Memory) (a : Nat) (bytes : List UInt8) :
    load (store m a bytes) a bytes.length = bytes := by
  refine ext_getElem length_load fun i lt inside => ?_
  simp only [load, getElem_map, getElem_range]
  rw [store_at inside]
  exact (getElem_eq_getD 0).symm

/-! ### Words -/

section
variable (m : Memory) (a : Nat)
include m

def load32 : UInt32 := UInt32.ofNat (ofLe (load m a 4))

def store32 (w : UInt32) : Memory := store m a (leBytes 4 w.toNat)

def load64 : UInt64 := UInt64.ofNat (ofLe (load m a 8))

def store64 (w : UInt64) : Memory := store m a (leBytes 8 w.toNat)

end

theorem load32_congr (same : ∀ i < 4, m' (a + i) = m (a + i)) : load32 m' a = load32 m a := by
  rw [load32, load_congr same, load32]

theorem load64_congr (same : ∀ i < 8, m' (a + i) = m (a + i)) : load64 m' a = load64 m a := by
  rw [load64, load_congr same, load64]

@[simp] theorem load32_zero : load32 (fun _ => 0) a = 0 := rfl

@[simp] theorem load64_zero : load64 (fun _ => 0) a = 0 := rfl

@[simp] theorem load32_store32 (m : Memory) (a : Nat) (w : UInt32) :
    load32 (store32 m a w) a = w := by
  have read := load_store m a (leBytes 4 w.toNat)
  rw [length_leBytes] at read
  have small : w.toNat % 256 ^ 4 = w.toNat := Nat.mod_eq_of_lt w.toNat_lt
  rw [load32, store32, read, ofLe_leBytes, small, UInt32.ofNat_toNat]

@[simp] theorem load64_store64 (m : Memory) (a : Nat) (w : UInt64) :
    load64 (store64 m a w) a = w := by
  have read := load_store m a (leBytes 8 w.toNat)
  rw [length_leBytes] at read
  have small : w.toNat % 256 ^ 8 = w.toNat := Nat.mod_eq_of_lt w.toNat_lt
  rw [load64, store64, read, ofLe_leBytes, small, UInt64.ofNat_toNat]

theorem store32_apart (apart : i < a ∨ a + 4 ≤ i) : store32 m a w i = m i :=
  store_apart (by simpa using apart)

theorem store64_apart {w : UInt64} (apart : i < a ∨ a + 8 ≤ i) : store64 m a w i = m i :=
  store_apart (by simpa using apart)

theorem load32_store32_apart (apart : b + 4 ≤ a ∨ a + 4 ≤ b) :
    load32 (store32 m a w) b = load32 m b :=
  load32_congr fun i lt => store32_apart (by omega)

theorem load64_store32_apart (apart : b + 8 ≤ a ∨ a + 4 ≤ b) :
    load64 (store32 m a w) b = load64 m b :=
  load64_congr fun i lt => store32_apart (by omega)

theorem load32_store64_apart {w : UInt64} (apart : b + 4 ≤ a ∨ a + 8 ≤ b) :
    load32 (store64 m a w) b = load32 m b :=
  load32_congr fun i lt => store64_apart (by omega)

theorem load64_store64_apart {w : UInt64} (apart : b + 8 ≤ a ∨ a + 8 ≤ b) :
    load64 (store64 m a w) b = load64 m b :=
  load64_congr fun i lt => store64_apart (by omega)

end Triskelion.ByteMemory
