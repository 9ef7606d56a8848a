import Mathlib.Tactic.Positivity
import Mathlib.Tactic.Ring

/-!
# Rounding up to an alignment

Alignments are powers of two, so that of any two of them one divides the other.
Rounding a number up to an alignment keeps every smaller alignment it has, and
does not pass a multiple of the alignment.
-/

namespace Alignment

/-- `a` is a power of two. -/
def IsPow2 (a : ℤ) : Prop := ∃ k : ℕ, a = 2 ^ k

/-- The least multiple of `a` that is at least `n`. For a power of two this is
`(n + a - 1) & ~(a - 1)`. -/
def roundUp (n a : ℤ) : ℤ := n + a - 1 - (n + a - 1) % a

variable {a b m n : ℤ}

/-- A power of two is positive. -/
theorem IsPow2.pos (ha : IsPow2 a) : 0 < a := by
  obtain ⟨k, rfl⟩ := ha
  positivity

/-- Of two powers of two the smaller divides the greater. -/
theorem IsPow2.dvd_of_le (ha : IsPow2 a) (hb : IsPow2 b) (hle : a ≤ b) : a ∣ b := by
  obtain ⟨j, rfl⟩ := ha
  obtain ⟨k, rfl⟩ := hb
  rcases Nat.le_total j k with hjk | hkj
  · exact pow_dvd_pow 2 hjk
  · have heq : (2 : ℤ) ^ j = 2 ^ k := le_antisymm hle (pow_le_pow_right₀ (by decide) hkj)
    rw [heq]

/-- The greater of two powers of two is one, and both divide it. -/
theorem IsPow2.max (ha : IsPow2 a) (hb : IsPow2 b) :
    IsPow2 (max a b) ∧ a ∣ max a b ∧ b ∣ max a b := by
  rcases le_total a b with hab | hba
  · rw [max_eq_right hab]
    exact ⟨hb, ha.dvd_of_le hb hab, dvd_rfl⟩
  · rw [max_eq_left hba]
    exact ⟨ha, dvd_rfl, hb.dvd_of_le ha hba⟩

/-- A power of two greater than one has a half. -/
theorem IsPow2.half (ha : IsPow2 a) (hone : 1 < a) : IsPow2 (a / 2) ∧ a = a / 2 + a / 2 := by
  obtain ⟨k, rfl⟩ := ha
  cases k with
  | zero => simp at hone
  | succ k =>
    have hhalf : (2 : ℤ) ^ (k + 1) / 2 = 2 ^ k := by
      rw [pow_succ]
      exact Int.mul_ediv_cancel _ (by decide)
    rw [hhalf]
    exact ⟨⟨k, rfl⟩, by ring⟩

/-- A multiple below another leaves room for one step. -/
theorem add_le_of_lt (hm : a ∣ m) (hn : a ∣ n) (hlt : m < n) : m + a ≤ n := by
  have := Int.le_of_dvd (by omega) (dvd_sub hn hm)
  omega

/-- The result is a multiple. -/
theorem dvd_roundUp (n a : ℤ) : a ∣ roundUp n a := Int.dvd_self_sub_emod

/-- It is not smaller. -/
theorem le_roundUp (ha : 0 < a) : n ≤ roundUp n a := by
  have := Int.emod_lt_of_pos (n + a - 1) ha
  unfold roundUp
  omega

/-- It is close. -/
theorem roundUp_lt (ha : 0 < a) : roundUp n a < n + a := by
  have := Int.emod_nonneg (n + a - 1) ha.ne'
  unfold roundUp
  omega

/-- It does not pass a multiple. -/
theorem roundUp_le (ha : 0 < a) (hm : a ∣ m) (hnm : n ≤ m) : roundUp n a ≤ m := by
  obtain ⟨c, rfl⟩ := hm
  obtain ⟨d, hd⟩ := dvd_roundUp n a
  have hlt := roundUp_lt (n := n) ha
  rw [hd] at hlt ⊢
  have hdc : d < c + 1 := by
    refine lt_of_mul_lt_mul_left ?_ ha.le
    calc a * d < n + a := hlt
      _ ≤ a * c + a := by omega
      _ = a * (c + 1) := by ring
  exact mul_le_mul_of_nonneg_left (by omega) ha.le

/-- A multiple is left as it is. -/
theorem roundUp_of_dvd (ha : 0 < a) (hn : a ∣ n) : roundUp n a = n :=
  le_antisymm (roundUp_le ha hn le_rfl) (le_roundUp ha)

/-- A multiple of one power of two stays one when it is rounded up to another. -/
theorem dvd_roundUp_of_dvd (ha : IsPow2 a) (hb : IsPow2 b) (hn : b ∣ n) : b ∣ roundUp n a := by
  rcases le_total a b with hab | hba
  · rwa [roundUp_of_dvd ha.pos ((ha.dvd_of_le hb hab).trans hn)]
  · exact (hb.dvd_of_le ha hba).trans (dvd_roundUp n a)

end Alignment
