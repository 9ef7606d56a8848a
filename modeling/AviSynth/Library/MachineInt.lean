import Mathlib.Algebra.Group.Nat.Defs
import Mathlib.Algebra.Ring.Int.Defs

/-!
# Signed machine integers

Machine integers are integers together with the reduction that a computation
or a conversion of the given width applies. A sum that does not leave the range
is exact; two's complement wraps the others.
-/

namespace MachineInt

/-- The value that a signed integer of 32 bits keeps of `x`. -/
def i32 (x : ℤ) : ℤ := Int.bmod x (2 ^ 32)

/-- The value that a signed integer of 64 bits keeps of `x`. -/
def i64 (x : ℤ) : ℤ := Int.bmod x (2 ^ 64)

/-- The values of a signed 64-bit integer. -/
def IsInt64 (x : ℤ) : Prop := -2 ^ 63 ≤ x ∧ x < 2 ^ 63
  deriving Decidable

variable {x : ℤ}

/-- In range, 32 bits keep the value. -/
theorem i32_of_range (hlow : -2 ^ 31 ≤ x) (hhigh : x < 2 ^ 31) : i32 x = x :=
  Int.bmod_eq_of_le (by omega) (by omega)

/-- In range, 64 bits keep the value. -/
theorem i64_of_range (hlow : -2 ^ 63 ≤ x) (hhigh : x < 2 ^ 63) : i64 x = x :=
  Int.bmod_eq_of_le (by omega) (by omega)

theorem i32_lt (x : ℤ) : i32 x < 2 ^ 31 := by
  have h := Int.bmod_lt (x := x) (m := 2 ^ 32) (by decide)
  unfold i32
  omega

/-- What 32 bits keep, when it is not negative, is the remainder of a full turn. -/
theorem i32_eq_emod (h : 0 ≤ i32 x) : i32 x = x % 2 ^ 32 := by
  have hturn : (x % 2 ^ 32) % 2 ^ 32 = i32 x % 2 ^ 32 := by
    rw [Int.emod_emod]
    exact Int.bmod_emod.symm
  have hlt := i32_lt x
  omega

/-- A value beyond the range of 32 bits by less than a full turn becomes negative. -/
theorem i32_of_overflow (hlow : 2 ^ 31 ≤ x) (hhigh : x < 2 ^ 32) : i32 x = x - 2 ^ 32 := by
  have hturn : i32 (x - 2 ^ 32) = i32 x := by
    exact Int.sub_bmod_right x (2 ^ 32)
  rw [← hturn, i32_of_range (by omega) (by omega)]

/-- A value beyond the range by less than a full turn becomes negative. -/
theorem i64_of_overflow (hlow : 2 ^ 63 ≤ x) (hhigh : x < 2 ^ 64) : i64 x = x - 2 ^ 64 := by
  have hturn : i64 (x - 2 ^ 64) = i64 x := by
    exact Int.sub_bmod_right x (2 ^ 64)
  rw [← hturn, i64_of_range (by omega) (by omega)]

/-- Reduction to 64 bits changes a number by full turns. -/
theorem dvd_i64_sub (x : ℤ) : (2 ^ 64 : ℤ) ∣ i64 x - x := Int.dvd_bmod_sub_self

/-- Numbers that are full turns apart have the same value in 64 bits. -/
theorem i64_congr {x y : ℤ} (h : (2 ^ 64 : ℤ) ∣ x - y) : i64 x = i64 y := by
  obtain ⟨turns, hturns⟩ := h
  have hx : x = y + 2 ^ 64 * turns := by omega
  rw [hx]
  exact Int.add_mul_bmod_self_left y (2 ^ 64) turns

/-- What 64 bits keep is a value of 64 bits. -/
theorem isInt64_i64 (x : ℤ) : IsInt64 (i64 x) := by
  have hlow := Int.le_bmod (x := x) (m := 2 ^ 64) (by decide)
  have hhigh := Int.bmod_lt (x := x) (m := 2 ^ 64) (by decide)
  constructor
  · unfold i64
    omega
  · unfold i64
    omega

/-- 64 bits keep exactly their own values. -/
theorem i64_eq_self_iff : i64 x = x ↔ IsInt64 x := by
  constructor
  · intro h
    rw [← h]
    exact isInt64_i64 x
  · rintro ⟨hlow, hhigh⟩
    exact i64_of_range hlow hhigh

theorem isInt64_toInt (x : Int64) : IsInt64 x.toInt := ⟨x.le_toInt, x.toInt_lt⟩

/-- Reduction after an addition makes one before it superfluous. -/
theorem i32_i32_add (x y : ℤ) : i32 (i32 x + y) = i32 (x + y) := Int.bmod_add_bmod

/-- A number between two others, which a lower bound above the upper one decides. -/
def clampInt (n min max : ℤ) : ℤ :=
  let n := if max < n then max else n
  if n < min then min else n

theorem clampInt_spec {n min max : ℤ} (h : min ≤ max) :
    min ≤ clampInt n min max ∧ clampInt n min max ≤ max ∧
      (min ≤ n → n ≤ max → clampInt n min max = n) := by
  simp only [clampInt]
  split_ifs <;> omega

end MachineInt
