import Mathlib.Algebra.Group.Nat.Defs

/-!
# Comparison of double precision numbers

A double is its 64 bits: the sign, eleven bits of the exponent and 52 bits of the fraction.
Only two pairs of doubles compare otherwise than their bits: a NaN is equal to nothing, and
the two zeros are equal.
-/

/-- The bits of a double. -/
abbrev Double := BitVec 64

namespace Double

/-- The bits apart from the sign. -/
def magnitude (x : Double) : ℕ := x.toNat % 2 ^ 63

/-- The exponent of an infinity, and a fraction that is not zero. -/
def isNaN (x : Double) : Bool := 2047 * 2 ^ 52 < x.magnitude

/-- Either zero. -/
def isZero (x : Double) : Bool := x.magnitude = 0

/-- The operator `==`. -/
def eq (x y : Double) : Bool :=
  !x.isNaN && !y.isNaN && (x == y || (x.isZero && y.isZero))

/-- A zero is no NaN. -/
theorem isNaN_of_isZero {x : Double} (h : x.isZero) : x.isNaN = false := by
  have hzero : x.magnitude = 0 := by simpa [isZero] using h
  simp [isNaN, hzero]

/-- The zeros are equal. -/
theorem eq_of_isZero {x y : Double} (hx : x.isZero) (hy : y.isZero) : x.eq y = true := by
  simp [eq, isNaN_of_isZero hx, isNaN_of_isZero hy, hx, hy]

/-- Doubles that are equal are the same, or zeros. -/
theorem same_of_eq {x y : Double} (h : x.eq y = true) : x = y ∨ (x.isZero ∧ y.isZero) := by
  unfold eq at h
  simp only [Bool.and_eq_true, Bool.or_eq_true, beq_iff_eq] at h
  exact h.2

/-- The zero with the sign. -/
def negativeZero : Double := 0x8000000000000000#64

end Double
