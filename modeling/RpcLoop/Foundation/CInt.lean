import Mathlib.Algebra.Group.Int.Defs
import Mathlib.Algebra.Group.Nat.Defs

/-! Arithmetic of the 32-bit `int`: sums that fit, sums that do not, and the
conversion to the unsigned `size_t` of lengths. -/

namespace RpcLoop.Foundation.CInt

theorem toInt_add (first second : Int32) (lower : -2 ^ 31 ≤ first.toInt + second.toInt)
    (upper : first.toInt + second.toInt < 2 ^ 31) :
    (first + second).toInt = first.toInt + second.toInt := by
  rw [Int32.toInt_add]
  exact Int.bmod_eq_of_le (by omega) (by omega)

/-- A sum above the range wraps around to a negative value. -/
theorem toInt_add_neg (first second : Int32) (large : 2 ^ 31 ≤ first.toInt + second.toInt) :
    (first + second).toInt < 0 := by
  have left := first.toInt_lt
  have right := second.toInt_lt
  rw [Int32.toInt_add, Int.bmod_def]
  split <;> omega

/-- Two integers wrap to the same `int` when they differ by a multiple of 2^32. -/
theorem ofInt_eq_ofInt_iff (first second : Int) :
    Int32.ofInt first = Int32.ofInt second ↔ (2 ^ 32 : Int) ∣ first - second := by
  rw [← Int32.toInt_inj, Int32.toInt_ofInt, Int32.toInt_ofInt,
    Int.bmod_eq_bmod_iff_bmod_sub_eq_zero, ← Int.dvd_iff_bmod_eq_zero]
  rfl

/-- A counter after a number of increments, wrapped to the range of `int`. -/
theorem toInt_counter (start : Int32) (count : Nat) :
    (start + Int32.ofNat count).toInt = (start.toInt + count).bmod (2 ^ 32) := by
  rw [Int32.toInt_add, Int32.toInt_ofNat']
  exact Int.add_bmod_bmod

theorem toInt_ofNat (count : Nat) : (Int32.ofNat count).toInt = (count : Int).bmod (2 ^ 32) :=
  Int32.toInt_ofNat'

/-- The value can be held by an `int`. -/
def Fits (value : Int) : Prop := -2 ^ 31 ≤ value ∧ value < 2 ^ 31

/-- The conversion of an `int` to a 64-bit `size_t`. -/
def toSizeT (value : Int32) : Nat := (value.toInt % 2 ^ 64).toNat

theorem toSizeT_of_nonneg {value : Int32} (nonneg : 0 ≤ value.toInt) :
    (toSizeT value : Int) = value.toInt := by
  have upper := value.toInt_lt
  simp only [toSizeT]
  omega

/-- A negative length becomes an enormous one. -/
theorem toSizeT_of_neg {value : Int32} (negative : value.toInt < 0) :
    (2 ^ 63 : Int) ≤ toSizeT value := by
  have lower := value.le_toInt
  simp only [toSizeT]
  omega

theorem nonneg_iff {value : Int32} : 0 ≤ value ↔ 0 ≤ value.toInt :=
  Int32.le_iff_toInt_le

theorem toNatClampNeg_eq (value : Int32) : value.toNatClampNeg = value.toInt.toNat := rfl

end RpcLoop.Foundation.CInt
