import Mathlib.Tactic.Common

/-! # Machine words as integers

A 64-bit word read as a signed number and back.
Where the numbers fit, the operations of the words are those of the integers. -/

namespace WalletToolbox.Lib

section Word

variable {x y : UInt64} {a b : Int64}

theorem toInt_toInt64 (h : x.toNat < 9223372036854775808) : x.toInt64.toInt = x.toNat := by
  have hmod : x.toInt64.toInt = (x.toNat : Int).bmod 18446744073709551616 :=
    BitVec.toInt_eq_toNat_bmod x.toBitVec
  rw [hmod, Int.bmod_def]
  omega

theorem toInt_bounds : -9223372036854775808 ≤ a.toInt ∧ a.toInt < 9223372036854775808 :=
  ⟨a.minValue_le_toInt, a.toInt_lt⟩

theorem toNat_toUInt64 (h : 0 ≤ a.toInt) : (a.toUInt64.toNat : Int) = a.toInt := by
  have hmod : a.toInt = (a.toUInt64.toNat : Int).bmod 18446744073709551616 :=
    BitVec.toInt_eq_toNat_bmod a.toBitVec
  have hlt := a.toUInt64.toNat_lt
  rw [Int.bmod_def] at hmod
  omega

theorem toNat_toUInt64_of_neg (h : a.toInt < 0) :
    (a.toUInt64.toNat : Int) = a.toInt + 18446744073709551616 := by
  have hmod : a.toInt = (a.toUInt64.toNat : Int).bmod 18446744073709551616 :=
    BitVec.toInt_eq_toNat_bmod a.toBitVec
  have hlt := a.toUInt64.toNat_lt
  rw [Int.bmod_def] at hmod
  omega

theorem toInt_sub_of_fits (h : -9223372036854775808 ≤ a.toInt - b.toInt)
    (h' : a.toInt - b.toInt < 9223372036854775808) : (a - b).toInt = a.toInt - b.toInt := by
  rw [Int64.toInt_sub, Int.bmod_def]
  omega

theorem toInt_add_of_fits (h : -9223372036854775808 ≤ a.toInt + b.toInt)
    (h' : a.toInt + b.toInt < 9223372036854775808) : (a + b).toInt = a.toInt + b.toInt := by
  rw [Int64.toInt_add, Int.bmod_def]
  omega

theorem pos_iff : a > 0 ↔ 0 < a.toInt :=
  Int64.lt_iff_toInt_lt

theorem neg_iff : a < 0 ↔ a.toInt < 0 :=
  Int64.lt_iff_toInt_lt

theorem nonneg_iff : a ≥ 0 ↔ 0 ≤ a.toInt :=
  Int64.le_iff_toInt_le

theorem toNat_add_of_lt (h : x.toNat + y.toNat < 18446744073709551616) :
    (x + y).toNat = x.toNat + y.toNat := by
  rw [UInt64.toNat_add]
  omega

theorem toNat_sub_of_le (h : y.toNat ≤ x.toNat) : (x - y).toNat = x.toNat - y.toNat :=
  UInt64.toNat_sub_of_le _ _ (UInt64.le_iff_toNat_le.mpr h)

theorem toNat_min : (min x y).toNat = min x.toNat y.toNat := by
  change (if x ≤ y then x else y).toNat = _
  split <;> rename_i h <;> rw [UInt64.le_iff_toNat_le] at h <;> omega

theorem toNat_max : (max x y).toNat = max x.toNat y.toNat := by
  change (if x ≤ y then y else x).toNat = _
  split <;> rename_i h <;> rw [UInt64.le_iff_toNat_le] at h <;> omega

end Word

end WalletToolbox.Lib
