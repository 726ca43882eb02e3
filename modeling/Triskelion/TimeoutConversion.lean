import Mathlib.Algebra.Group.Int.Defs
import Mathlib.Algebra.Group.Nat.Defs
import Triskelion.Select

/-! The kernel's deadline of a wait. The wall clock is read in whole ticks of 100 ns, so a
deadline may come out late, never early. -/

namespace Triskelion.TimeoutConversion
open Select
open Int64 (maxValue ofNat toInt_zero)

structure Timespec where
  sec : Int64
  nsec : Int64

def Timespec.ofNs (ns : Nat) : Timespec :=
  ⟨ofNat (ns / 1000000000), ofNat (ns % 1000000000)⟩

def ticks1601To1970 : Int64 := 116444736000000000

def monoNowNs (ts : Timespec) : UInt64 := ts.sec.toUInt64 * 1000000000 + ts.nsec.toUInt64

def now100ns (ts : Timespec) : Int64 := ts.sec * 10000000 + ts.nsec / 100 + ticks1601To1970

def timeoutAt (mono wall : Nat) (timeout : Int64) : Nat :=
  (computeNtsyncTimeout timeout (monoNowNs (.ofNs mono)) (now100ns (.ofNs wall))).toNat

/-- The start of the year 10000, in nanoseconds since 1970. -/
def year10000 : Nat := 253402300800000000000

variable {mono wall : Nat}

theorem toNat_toUInt64 (x : Int64) : (x.toUInt64.toNat : Int) = x.toInt % 2 ^ 64 := by
  change (x.toBitVec.toNat : Int) = x.toBitVec.toInt % 2 ^ 64
  rw [BitVec.toInt_eq_toNat_cond]
  have := x.toBitVec.isLt
  split <;> omega

theorem toNat_monoNowNs (early : mono < 2 ^ 63) : (monoNowNs (.ofNs mono)).toNat = mono := by
  simp only [monoNowNs, Timespec.ofNs, UInt64.toNat_add, UInt64.toNat_mul, Int64.toUInt64_ofNat',
    UInt64.toNat_ofNat', UInt64.reduceToNat]
  omega

theorem toInt_now100ns (early : wall < year10000) :
    (now100ns (.ofNs wall)).toInt = wall / 100 + ticks1601To1970.toInt := by
  have sec : (ofNat (wall / 1000000000)).toInt = (wall / 1000000000 : Nat) :=
    Int64.toInt_ofNat_of_lt (by unfold year10000 at early; omega)
  have nsec : (ofNat (wall % 1000000000)).toInt = (wall % 1000000000 : Nat) :=
    Int64.toInt_ofNat_of_lt (by omega)
  have ticks : ticks1601To1970.toInt = 116444736000000000 := by decide
  simp only [now100ns, Timespec.ofNs, Int64.toInt_add, Int64.toInt_mul, Int64.toInt_div, sec, nsec,
    ticks, Int64.reduceToInt, Int.tdiv_eq_ediv_of_nonneg (Int.natCast_nonneg _),
    Int.bmod_add_bmod, Int.add_bmod_bmod]
  unfold year10000 at early
  rw [Int.bmod_eq_of_le (by omega) (by omega)]
  omega

/-- When the wait ends, to the nanosecond, on the monotonic clock. -/
def exactDeadline (mono wall : Nat) (timeout : Int64) : Int :=
  if timeout < 0 then mono - 100 * timeout.toInt
  else mono + (100 * (timeout.toInt - ticks1601To1970.toInt) - wall)

theorem toNat_saturated (a b : UInt64) : (saturatingAdd a (saturatingMul b 100)).toNat =
    min (a.toNat + 100 * b.toNat) maxNs.toNat := by
  have max : maxNs.toNat = 18446744073709551615 := rfl
  simp only [saturatingAdd, saturatingMul, UInt64.toNat_ofNat', max, UInt64.reduceToNat]
  omega

theorem toNat_sub {a b : Int64} (later : b.toInt < a.toInt) :
    ((a - b).toUInt64.toNat : Int) = a.toInt - b.toInt := by
  have := a.toInt_lt
  have := b.le_toInt
  rw [toNat_toUInt64, Int64.toInt_sub]
  have := Int.bmod_emod (x := a.toInt - b.toInt) (m := 2 ^ 64)
  omega

section
variable (early : mono < 2 ^ 63) (recent : wall < year10000)
include early recent

theorem timeoutAt_eq (timeout : Int64) : (timeoutAt mono wall timeout : Int) =
    if timeout = maxValue then (maxNs.toNat : Int)
    else if timeout < 0 then min (mono - 100 * timeout.toInt) maxNs.toNat
    else if timeout.toInt ≤ wall / 100 + ticks1601To1970.toInt then 1
    else min (mono + 100 * (timeout.toInt - (wall / 100 + ticks1601To1970.toInt))) maxNs.toNat := by
  have clock := toInt_now100ns recent
  unfold timeoutAt computeNtsyncTimeout
  split
  · rfl
  split
  · next neg =>
    have ahead := toNat_sub (Int64.lt_iff_toInt_lt.mp neg)
    rw [Int64.zero_sub, toInt_zero] at ahead
    rw [toNat_saturated, toNat_monoNowNs early]
    omega
  simp only [Int64.lt_iff_toInt_lt, Int64.le_iff_toInt_le, clock, toInt_zero]
  split
  · split
    · rfl
    · next later =>
      have ahead := toNat_sub (a := timeout) (b := now100ns (.ofNs wall)) (by omega)
      rw [toNat_saturated, toNat_monoNowNs early]
      omega
  · rw [if_pos]
    · rfl
    · have ticks : ticks1601To1970.toInt = 116444736000000000 := by decide
      omega

/-- A deadline less than 100 ns before the last value may come out as that value, which stands
for no deadline; later ones do so by saturation. -/
theorem timeout_converted (timeout : Int64) :
    1 ≤ timeoutAt mono wall timeout ∧
    (timeout = maxValue → timeoutAt mono wall timeout = maxNs.toNat) ∧
    (timeout ≠ maxValue → timeoutAt mono wall timeout = maxNs.toNat →
      maxNs.toNat < exactDeadline mono wall timeout + 100) ∧
    (timeout ≠ maxValue → mono < exactDeadline mono wall timeout →
      min (exactDeadline mono wall timeout) maxNs.toNat ≤ timeoutAt mono wall timeout ∧
      timeoutAt mono wall timeout ≤ exactDeadline mono wall timeout + 100) ∧
    (∀ longer < timeout, timeout < 0 →
      timeoutAt mono wall timeout ≤ timeoutAt mono wall longer) ∧
    ∀ later, timeout < later → 0 ≤ timeout →
      timeoutAt mono wall timeout ≤ timeoutAt mono wall later := by
  have max : maxNs.toNat = 18446744073709551615 := rfl
  have ticks : ticks1601To1970.toInt = 116444736000000000 := by decide
  have value := timeoutAt_eq early recent
  have this := value timeout
  unfold exactDeadline
  simp only [Int64.lt_iff_toInt_lt, ← Int64.toInt_inj, toInt_zero, Int64.toInt_maxValue,
    Int64.le_iff_toInt_le, ne_eq, max, ticks] at *
  refine ⟨?_, ?_, ?_, ?_, fun longer _ _ => ?_, fun later _ _ => ?_⟩
  · split_ifs at this <;> omega
  · intro endless
    rw [if_pos endless] at this
    omega
  · intro ended
    rw [if_neg ended] at this
    split_ifs at this ⊢ <;> omega
  · intro ended
    rw [if_neg ended] at this
    split_ifs at this ⊢ <;> omega
  · have := value longer
    split_ifs at * <;> omega
  · have := value later
    have := later.toInt_lt
    split_ifs at * <;> omega
end

/-- The deadline is the last value itself, and the wait does not end. -/
theorem last_value_endless : timeoutAt 15 0 (-184467440737095516) = maxNs.toNat ∧
    exactDeadline 15 0 (-184467440737095516) = maxNs.toNat := by
  decide

theorem one_second_converted :
    (5 : Nat) < 2 ^ 63 ∧ 0 < year10000 ∧ 1 ≤ timeoutAt 5 0 (-10000000) :=
  ⟨by decide, by decide, (timeout_converted (by decide) (by decide) _).1⟩

end Triskelion.TimeoutConversion
