import Mathlib.Algebra.Group.Nat.Defs
import Mathlib.Algebra.Order.Group.Int

/-!
# Machine arithmetic that is exact

Sums, products and quotients of machine integers are those of the integers as long as the result
is in range, and the difference of two signed numbers is exact as an unsigned one, whatever the
two are.

## Main definitions

* `Fits n`: the integer is in the range of `Int64`

## Main results

* `toInt_add_of_fits`, `toInt_mul_of_fits`: sums and products in range
* `toInt_toInt64`, `toNat_toUInt64`: the conversions, as residues
* `toNat_sub_of_le`: the unsigned difference of signed numbers
-/

namespace Program

/-- The integer is in the range of signed 64-bit numbers. -/
def Fits (n : ℤ) : Prop := -2 ^ 63 ≤ n ∧ n < 2 ^ 63

theorem bmod_of_fits {n : ℤ} (h : Fits n) : n.bmod (2 ^ 64) = n := by
  obtain ⟨hlow, hhigh⟩ := h
  apply Int.bmod_eq_of_le
  · omega
  · omega

variable {a b : Int64}

theorem toInt_add_of_fits (h : Fits (a.toInt + b.toInt)) : (a + b).toInt = a.toInt + b.toInt := by
  rw [Int64.toInt_add, bmod_of_fits h]

theorem toInt_mul_of_fits (h : Fits (a.toInt * b.toInt)) : (a * b).toInt = a.toInt * b.toInt := by
  rw [Int64.toInt_mul, bmod_of_fits h]

/-- An unsigned number as a signed one is its balanced residue. -/
theorem toInt_toInt64 (a : UInt64) : a.toInt64.toInt = (a.toNat : ℤ).bmod (2 ^ 64) := by
  rw [← Int64.toInt_toBitVec, UInt64.toBitVec_toInt64, BitVec.toInt_eq_toNat_bmod,
    UInt64.toNat_toBitVec]

/-- A signed number as an unsigned one is its residue. -/
theorem toNat_toUInt64 (a : Int64) : (a.toUInt64.toNat : ℤ) = a.toInt % 2 ^ 64 := by
  rw [← Int64.toInt_toBitVec, ← UInt64.toNat_toBitVec, Int64.toBitVec_toUInt64,
    BitVec.toInt_eq_toNat_bmod]
  have hlt := a.toBitVec.isLt
  rw [Int.bmod_eq_emod]
  split_ifs <;> omega

/-- **Differences are exact**: of two signed numbers the larger less the smaller, as an unsigned
number, does not wrap around. -/
theorem toNat_sub_of_le (h : b ≤ a) : ((a - b).toUInt64.toNat : ℤ) = a.toInt - b.toInt := by
  have hle := Int64.le_iff_toInt_le.mp h
  have ha := a.toInt_lt
  have hb := b.le_toInt
  rw [toNat_toUInt64, Int64.toInt_sub, Int.bmod_eq_emod]
  split_ifs <;> omega

end Program
