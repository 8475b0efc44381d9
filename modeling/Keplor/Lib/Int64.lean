import Mathlib.Algebra.Group.Nat.Defs
import Mathlib.Algebra.Ring.Int.Defs
import Mathlib.Order.Defs.LinearOrder
import Mathlib.Tactic.Common

/-!
# Signed 64-bit arithmetic

Lean's `Int64` wraps, as release builds do. This file adds its order, the saturating operations, and the one
question a proof asks of a wrapped difference: which way did it err? A value that wraps around the
bottom of the range comes out too large, one that wraps around the top comes out too small, so
"not above the exact value" is the same as "the exact value is not below the range".
-/

set_option autoImplicit false

namespace Keplor.Lib

instance int64LinearOrder : LinearOrder Int64 where
  le_refl := Int64.le_refl
  le_trans _ _ _ := Int64.le_trans
  lt_iff_le_not_ge a b := by
    rw [Int64.not_le]
    exact ⟨fun h => ⟨Int64.le_of_lt h, h⟩, fun h => h.2⟩
  le_antisymm _ _ := Int64.le_antisymm
  le_total := Int64.le_total
  toDecidableLE := inferInstance
  toDecidableLT := inferInstance

/-- `i64::saturating_add` -/
def saturatingAdd (a b : Int64) : Int64 := Int64.ofIntClamp (a.toInt + b.toInt)

/-- `i64::saturating_sub` -/
def saturatingSub (a b : Int64) : Int64 := Int64.ofIntClamp (a.toInt - b.toInt)

/-- `i64::saturating_mul` -/
def saturatingMul (a b : Int64) : Int64 := Int64.ofIntClamp (a.toInt * b.toInt)

theorem int64_add_right_comm (a b c : Int64) : a + b + c = a + c + b := by
  rw [Int64.add_assoc, Int64.add_comm b, ← Int64.add_assoc]

theorem toInt_ofIntClamp (v : Int) :
    (Int64.ofIntClamp v).toInt = max (-2 ^ 63) (min v (2 ^ 63 - 1)) := by
  have hmin : Int64.minValue.toInt = -2 ^ 63 := rfl
  have hmax : Int64.maxValue.toInt = 2 ^ 63 - 1 := rfl
  unfold Int64.ofIntClamp
  split
  · split
    · rw [Int64.toInt_ofIntLE]
      omega
    · omega
  · omega

theorem toInt_saturatingAdd (a b : Int64) :
    (saturatingAdd a b).toInt = max (-2 ^ 63) (min (a.toInt + b.toInt) (2 ^ 63 - 1)) :=
  toInt_ofIntClamp _

theorem saturatingAdd_nonneg {a b : Int64} (ha : 0 ≤ a) (hb : 0 ≤ b) : 0 ≤ saturatingAdd a b := by
  rw [Int64.le_iff_toInt_le, Int64.toInt_zero] at *
  rw [toInt_saturatingAdd]
  omega

/-- What is not negative can be added in any order: nothing comes back from the upper end. -/
theorem saturatingAdd_right_comm (a : Int64) {b c : Int64} (hb : 0 ≤ b) (hc : 0 ≤ c) :
    saturatingAdd (saturatingAdd a b) c = saturatingAdd (saturatingAdd a c) b := by
  rw [Int64.le_iff_toInt_le, Int64.toInt_zero] at hb hc
  apply Int64.toInt_inj.mp
  simp only [toInt_saturatingAdd]
  have := a.le_toInt
  omega

/-- A balanced remainder exceeds its argument exactly when the argument is below the range. -/
theorem bmod_le_self_iff (x : Int) : x.bmod (2 ^ 64) ≤ x ↔ -2 ^ 63 ≤ x := by
  rw [Int.bmod_eq_emod]
  split <;> omega

/-- Reducing an operand first does not change a wrapped difference. -/
theorem toInt_sub_mul (a b c : Int64) :
    (a - b * c).toInt = (a.toInt - b.toInt * c.toInt).bmod (2 ^ 64) := by
  rw [Int64.toInt_sub, Int64.toInt_mul, Int.sub_bmod_bmod]

/-- The bits of an unsigned word, read as signed, are congruent to it. -/
theorem toInt_toInt64 (n : UInt64) : n.toInt64.toInt = (n.toNat : Int).bmod (2 ^ 64) := by
  rw [← Int64.toInt_toBitVec, UInt64.toBitVec_toInt64, BitVec.toInt_eq_toNat_bmod]
  rfl

end Keplor.Lib
