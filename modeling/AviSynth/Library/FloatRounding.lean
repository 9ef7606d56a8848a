import Mathlib.Data.Int.Log
import Mathlib.Data.Rat.Floor

/-!
# Rounding to a number of binary digits

A rational number is rounded to the nearest one with `p` binary digits, and to the one whose
last digit is zero if two are equally near. The exponents are without bounds, as they are in
the normal range of a format. The error is at most one part in `2 ^ p`, and a number with
`p` digits stays as it is.
-/

namespace FloatRounding

/-- The nearest integer, and the even one of two. -/
def nearestEven (q : ℚ) : ℤ :=
  if q - ⌊q⌋ < 1 / 2 then ⌊q⌋
  else if 1 / 2 < q - ⌊q⌋ then ⌊q⌋ + 1
  else if ⌊q⌋ % 2 = 0 then ⌊q⌋ else ⌊q⌋ + 1

/-- The value of the last of `p` digits. -/
def lastDigit (p : ℕ) (x : ℚ) : ℚ := 2 ^ (Int.log 2 |x| + 1 - p)

/-- The nearest number with `p` digits. -/
def roundTo (p : ℕ) (x : ℚ) : ℚ := nearestEven (x / lastDigit p x) * lastDigit p x

/-- The integer towards zero. -/
def truncate (x : ℚ) : ℤ := if 0 ≤ x then ⌊x⌋ else ⌈x⌉

variable {p : ℕ} {x : ℚ}

theorem abs_nearestEven_sub_le (q : ℚ) : |nearestEven q - q| ≤ 1 / 2 := by
  have hfloor := Int.floor_le q
  have hlt := Int.lt_floor_add_one q
  rw [abs_le, nearestEven]
  split_ifs with hbelow habove heven
  · constructor <;> linarith
  · push_cast
    constructor <;> linarith
  · constructor <;> linarith
  · push_cast
    constructor <;> linarith

theorem nearestEven_intCast (n : ℤ) : nearestEven n = n := by
  simp [nearestEven]

theorem lastDigit_pos (p : ℕ) (x : ℚ) : 0 < lastDigit p x := zpow_pos (by norm_num) _

/-- The error is at most half of the last digit. -/
theorem abs_roundTo_sub_le_lastDigit (p : ℕ) (x : ℚ) :
    |roundTo p x - x| ≤ lastDigit p x / 2 := by
  have hpos := lastDigit_pos p x
  have hsplit : roundTo p x - x =
      (nearestEven (x / lastDigit p x) - x / lastDigit p x) * lastDigit p x := by
    rw [roundTo, sub_mul, div_mul_cancel₀ _ hpos.ne']
  rw [hsplit, abs_mul, abs_of_pos hpos]
  calc |(nearestEven (x / lastDigit p x) : ℚ) - x / lastDigit p x| * lastDigit p x
      ≤ 1 / 2 * lastDigit p x :=
        mul_le_mul_of_nonneg_right (abs_nearestEven_sub_le _) hpos.le
    _ = lastDigit p x / 2 := by ring

/-- The error is at most one part in `2 ^ p`. -/
theorem abs_roundTo_sub_le (p : ℕ) (x : ℚ) : |roundTo p x - x| ≤ |x| / 2 ^ p := by
  by_cases hx : x = 0
  · subst hx
    simp [roundTo, nearestEven]
  · have hlog : (2 : ℚ) ^ Int.log 2 |x| ≤ |x| :=
      Int.zpow_log_le_self (by norm_num) (abs_pos.mpr hx)
    calc |roundTo p x - x| ≤ lastDigit p x / 2 := abs_roundTo_sub_le_lastDigit p x
      _ = 2 ^ Int.log 2 |x| / 2 ^ p := by
        rw [lastDigit, zpow_sub₀ (by norm_num), zpow_add₀ (by norm_num), zpow_natCast, zpow_one]
        ring
      _ ≤ |x| / 2 ^ p := by gcongr

/-- A number with `p` digits stays as it is. -/
theorem roundTo_eq_self {m e : ℤ} (hm : |m| < 2 ^ p) :
    roundTo p (m * 2 ^ e) = m * 2 ^ e := by
  by_cases hzero : m = 0
  · simp [hzero, roundTo, nearestEven]
  have hx : |(m * 2 ^ e : ℚ)| < 2 ^ (p + e) := by
    rw [abs_mul, abs_of_pos (zpow_pos (by norm_num : (0 : ℚ) < 2) e), zpow_add₀ (by norm_num),
      zpow_natCast]
    refine mul_lt_mul_of_pos_right ?_ (zpow_pos (by norm_num) e)
    exact_mod_cast hm
  have hne : (m * 2 ^ e : ℚ) ≠ 0 :=
    mul_ne_zero (Int.cast_ne_zero.mpr hzero) (zpow_ne_zero e (by norm_num))
  have hlog : Int.log 2 |(m * 2 ^ e : ℚ)| < p + e :=
    (Int.lt_zpow_iff_log_lt (by norm_num) (abs_pos.mpr hne)).mp (by exact_mod_cast hx)
  obtain ⟨k, hk⟩ := Int.le.dest (by omega : Int.log 2 |(m * 2 ^ e : ℚ)| + 1 - p ≤ e)
  have hwhole : (m * 2 ^ e : ℚ) / lastDigit p (m * 2 ^ e) = ((m * 2 ^ k : ℤ) : ℚ) := by
    have hpower : (2 : ℚ) ^ e = 2 ^ (Int.log 2 |(m * 2 ^ e : ℚ)| + 1 - p) * 2 ^ k := by
      rw [← zpow_natCast, ← zpow_add₀ (by norm_num), hk]
    rw [lastDigit, div_eq_iff (zpow_ne_zero _ (by norm_num))]
    push_cast
    rw [mul_assoc, mul_comm ((2 : ℚ) ^ k), ← hpower]
  rw [roundTo, hwhole, nearestEven_intCast, ← hwhole,
    div_mul_cancel₀ _ (lastDigit_pos p _).ne']

end FloatRounding
