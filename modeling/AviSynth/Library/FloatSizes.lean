import Mathlib.Data.Nat.Log
import Mathlib.Tactic.NormNum
import Mathlib.Tactic.Ring

/-!
# Sizes of doubles

How large the results of additions, multiplications and divisions of doubles can be, in binary
digits. Each rounding adds one digit at most, so that a few operations on numbers that are not
large stay far below the largest double, and give neither an infinity nor a NaN.
-/

namespace FloatSizes

open Float.Model Float.Model.UnpackedFloat

/-- Below `2 ^ k`, apart from the sign. -/
def HasSize (k : ℕ) : UnpackedFloat → Prop
  | .zero _ => True
  | .finite _ mantissa exponent _ => totalExponent mantissa exponent ≤ k
  | _ => False

instance (k : ℕ) : DecidablePred (HasSize k)
  | .zero _ => inferInstanceAs (Decidable True)
  | .finite .. => inferInstanceAs (Decidable (_ ≤ _))
  | .notANumber => inferInstanceAs (Decidable False)
  | .infinity _ => inferInstanceAs (Decidable False)

theorem HasSize.mono {j k : ℕ} (hjk : j ≤ k) {x : UnpackedFloat} (h : HasSize j x) :
    HasSize k x := by
  cases x with
  | notANumber | infinity sign | zero sign => exact h
  | finite sign mantissa exponent hpos =>
    change totalExponent mantissa exponent ≤ j at h
    change totalExponent mantissa exponent ≤ k
    omega

section Exponents

variable {m n s : ℕ} {e : ℤ}

/-- The exponent of a mantissa of `n` bits. -/
theorem totalExponent_le (hm : m ≠ 0) (h : m < 2 ^ n) : totalExponent m e ≤ n + e := by
  have hlog := (Nat.log2_lt hm).mpr h
  unfold totalExponent
  omega

/-- The digits that are shifted out of a mantissa are made up for by the exponent. -/
theorem totalExponent_shiftRight (h : m / 2 ^ s ≠ 0) :
    totalExponent (m / 2 ^ s) (e + s) ≤ totalExponent m e := by
  have hpos : 0 < 2 ^ s := Nat.two_pow_pos s
  have hle : 2 ^ s ≤ m := by
    by_contra hlt
    exact h (Nat.div_eq_of_lt (not_le.mp hlt))
  have hs : s ≤ m.log2 := (Nat.le_log2 (by omega)).mpr hle
  have hlt : m / 2 ^ s < 2 ^ (m.log2 + 1 - s) := by
    rw [Nat.div_lt_iff_lt_mul hpos, ← Nat.pow_add, Nat.sub_add_cancel (by omega)]
    exact Nat.lt_log2_self
  have htotal := totalExponent_le (e := e + s) h hlt
  unfold totalExponent at htotal ⊢
  omega

theorem totalExponent_shiftLeft (hm : m ≠ 0) :
    totalExponent (m <<< s) (e - s) ≤ totalExponent m e := by
  have hne : m <<< s ≠ 0 := by
    rw [Nat.shiftLeft_eq]
    exact Nat.mul_ne_zero hm (Nat.two_pow_pos s).ne'
  have hlt : m <<< s < 2 ^ (m.log2 + 1 + s) := by
    rw [Nat.shiftLeft_eq, Nat.pow_add]
    exact Nat.mul_lt_mul_of_pos_right Nat.lt_log2_self (Nat.two_pow_pos s)
  have htotal := totalExponent_le (e := e - s) hne hlt
  unfold totalExponent at htotal ⊢
  omega

end Exponents

section Rounding

variable {spec : Format} {sign : Sign} {m k : ℕ} {e : ℤ} {accuracy : Accuracy}

theorem mantissa_shiftRight (em : ExtendedMantissa) (s : ℕ) :
    (em >>> s).mantissa = em.mantissa / 2 ^ s := by
  induction s with
  | zero => exact (Nat.div_one _).symm
  | succ s ih =>
    change (em >>> s).mantissa / 2 = _
    rw [ih, Nat.div_div_eq_div_mul, pow_succ]

/-- Rounding adds at most one. -/
theorem roundedMantissa_le (em : ExtendedMantissa) : em.roundedMantissa ≤ em.mantissa + 1 := by
  obtain ⟨mantissa, roundBit, stickyBit⟩ := em
  cases roundBit <;> cases stickyBit <;>
    simp only [ExtendedMantissa.roundedMantissa, ExtendedMantissa.accuracy,
      Accuracy.roundToNearestEven] <;> omega

/-- The shift of a mantissa is the one to the exponent of the format. -/
theorem shiftToTargetExponent_eq (spec : Format) (m : ℕ) (e : ℤ) (accuracy : Accuracy) :
    ∃ s : ℕ, (shiftToTargetExponent spec m e accuracy).1.mantissa = m / 2 ^ s ∧
      (shiftToTargetExponent spec m e accuracy).2 = e + s ∧
      (s = 0 ∨ e + s = spec.targetExponent (totalExponent m e)) := by
  refine ⟨(spec.targetExponent (totalExponent m e) - e).toNat, ?_, rfl, by omega⟩
  rw [shiftToTargetExponent, shiftToExponent]
  dsimp only
  rw [mantissa_shiftRight]
  cases accuracy with
  | exact => rfl
  | inexact order => cases order <;> rfl

/-- No exponent of a format is positive for its smallest numbers. -/
theorem targetExponent_le {total : ℤ} (hmin : spec.minExponent ≤ 0) (h : total ≤ k) :
    spec.targetExponent total ≤ k := by
  unfold Format.targetExponent
  omega

/-- Rounding adds one digit at most. -/
theorem hasSize_roundWithAccuracy (hmin : spec.minExponent ≤ 0) (h : totalExponent m e ≤ k) :
    HasSize (k + 1) (roundWithAccuracy spec sign m e accuracy) := by
  obtain ⟨s, hmantissa, hexponent, hs⟩ := shiftToTargetExponent_eq spec m e accuracy
  obtain ⟨em, e₁, hfirst⟩ : ∃ em e₁, shiftToTargetExponent spec m e accuracy = (em, e₁) :=
    ⟨_, _, rfl⟩
  rw [hfirst] at hmantissa hexponent
  subst hexponent
  have hrounded := roundedMantissa_le em
  rw [hmantissa] at hrounded
  have htotal (hne : em.roundedMantissa ≠ 0) :
      totalExponent em.roundedMantissa (e + s) ≤ k + 1 := by
    by_cases hzero : m / 2 ^ s = 0
    · -- all digits are shifted out, and one may be rounded up
      have hone : totalExponent em.roundedMantissa (e + s) ≤ (1 : ℕ) + (e + s) :=
        totalExponent_le hne (by omega)
      have htarget := targetExponent_le hmin h
      rcases hs with rfl | hs
      · rw [pow_zero, Nat.div_one] at hzero
        subst hzero
        unfold totalExponent at h
        omega
      · omega
    · have hlt : em.roundedMantissa < 2 ^ ((m / 2 ^ s).log2 + 2) := by
        have hlog := Nat.lt_log2_self (n := m / 2 ^ s)
        rw [pow_succ] at hlog ⊢
        rw [pow_succ]
        omega
      have hround := totalExponent_le (e := e + s) hne hlt
      have hshift := totalExponent_shiftRight (e := e) hzero
      unfold totalExponent at hround hshift h ⊢
      omega
  obtain ⟨s', hmantissa', hexponent', -⟩ :=
    shiftToTargetExponent_eq spec em.roundedMantissa (e + s) .exact
  rw [roundWithAccuracy, hfirst]
  dsimp only
  by_cases hfinal :
      (shiftToTargetExponent spec em.roundedMantissa (e + s) .exact).1.mantissa = 0
  · rw [dif_pos hfinal]
    exact trivial
  · rw [dif_neg hfinal]
    rw [hmantissa'] at hfinal
    have hne : em.roundedMantissa ≠ 0 := by
      intro hzero
      rw [hzero, Nat.zero_div] at hfinal
      exact hfinal rfl
    change totalExponent _ _ ≤ ((k + 1 : ℕ) : ℤ)
    rw [hmantissa', hexponent']
    exact (totalExponent_shiftRight hfinal).trans (htotal hne)

/-- A shift to the left does not enlarge a number. -/
theorem totalExponent_decreaseExponent (hm : m ≠ 0) (target : ℤ) :
    totalExponent (decreaseExponent m e target).1 (decreaseExponent m e target).2 ≤
      totalExponent m e :=
  totalExponent_shiftLeft hm

/-- Rounding enlarges by at most one bit. -/
theorem hasSize_round (hmin : spec.minExponent ≤ 0) (hm : m ≠ 0) (h : totalExponent m e ≤ k) :
    HasSize (k + 1) (round spec sign m e) :=
  hasSize_roundWithAccuracy hmin ((totalExponent_decreaseExponent hm _).trans h)

/-- So does normalizing. -/
theorem hasSize_normalize {mantissa : ℤ} (hmin : spec.minExponent ≤ 0)
    (h : mantissa ≠ 0 → totalExponent mantissa.natAbs e ≤ k) :
    HasSize (k + 1) (normalize spec mantissa e sign) := by
  unfold UnpackedFloat.normalize
  rcases lt_trichotomy mantissa 0 with hlt | rfl | hlt
  · rw [compare_lt_iff_lt.mpr hlt]
    have habs : (-mantissa).toNat = mantissa.natAbs := by omega
    dsimp only
    rw [habs]
    exact hasSize_round hmin (by omega) (h hlt.ne)
  · exact trivial
  · rw [compare_gt_iff_gt.mpr hlt]
    have habs : mantissa.toNat = mantissa.natAbs := by omega
    dsimp only
    rw [habs]
    exact hasSize_round hmin (by omega) (h hlt.ne')

end Rounding

section Operations

variable {spec : Format} {x y : UnpackedFloat} {j k : ℕ}

/-- The size of a product. -/
theorem hasSize_mul (hmin : spec.minExponent ≤ 0) (hx : HasSize j x) (hy : HasSize k y) :
    HasSize (j + k + 1) (mul spec x y) := by
  cases x with
  | notANumber | infinity sign => exact hx.elim
  | zero sign =>
    cases y with
    | notANumber | infinity sign => exact hy.elim
    | zero sign | finite sign m e hpos => exact trivial
  | finite sign m e hpos =>
    cases y with
    | notANumber | infinity sign => exact hy.elim
    | zero sign => exact trivial
    | finite sign' m' e' hpos' =>
      refine hasSize_roundWithAccuracy hmin ?_
      have hlt : m * m' < 2 ^ (m.log2 + 1 + (m'.log2 + 1)) := by
        rw [Nat.pow_add]
        exact Nat.mul_lt_mul'' Nat.lt_log2_self Nat.lt_log2_self
      have htotal := totalExponent_le (e := e + e') (Nat.mul_pos hpos hpos').ne' hlt
      change totalExponent m e ≤ j at hx
      change totalExponent m' e' ≤ k at hy
      unfold totalExponent at htotal hx hy ⊢
      omega

/-- The digits of a summand at the smaller of the exponents. -/
theorem decreaseExponent_lt {m : ℕ} {e target : ℤ} (htarget : target ≤ e)
    (h : totalExponent m e ≤ k) :
    (decreaseExponent m e target).1 < 2 ^ (k - target).toNat := by
  change m <<< (e - target).toNat < _
  have hle : m.log2 + 1 + (e - target).toNat ≤ (k - target).toNat := by
    unfold totalExponent at h
    omega
  calc m <<< (e - target).toNat = m * 2 ^ (e - target).toNat := Nat.shiftLeft_eq _ _
    _ < 2 ^ (m.log2 + 1) * 2 ^ (e - target).toNat :=
      Nat.mul_lt_mul_of_pos_right Nat.lt_log2_self (Nat.two_pow_pos _)
    _ = 2 ^ (m.log2 + 1 + (e - target).toNat) := (Nat.pow_add _ _ _).symm
    _ ≤ 2 ^ (k - target).toNat := Nat.pow_le_pow_right (by decide) hle

theorem natAbs_apply (sign : Sign) (z : ℤ) : (sign.apply z).natAbs = z.natAbs := by
  cases sign with
  | positive => rfl
  | negative => exact Int.natAbs_neg z

/-- The size of a sum. -/
theorem hasSize_add (hmin : spec.minExponent ≤ 0) (hx : HasSize k x) (hy : HasSize k y) :
    HasSize (k + 2) (add spec x y) := by
  cases x with
  | notANumber | infinity sign => exact hx.elim
  | zero sign =>
    cases y with
    | notANumber | infinity sign => exact hy.elim
    | zero sign' =>
      cases sign <;> cases sign' <;> exact trivial
    | finite sign m e hpos => exact hy.mono (by omega)
  | finite sign m e hpos =>
    cases y with
    | notANumber | infinity sign => exact hy.elim
    | zero sign => exact hx.mono (by omega)
    | finite sign' m' e' hpos' =>
      have hfirst := decreaseExponent_lt (min_le_left e e') hx
      have hsecond := decreaseExponent_lt (min_le_right e e') hy
      refine hasSize_normalize hmin fun hne => ?_
      have habs := Int.natAbs_add_le (sign.apply (decreaseExponent m e (min e e')).1)
        (sign'.apply (decreaseExponent m' e' (min e e')).1)
      rw [natAbs_apply, natAbs_apply, Int.natAbs_natCast, Int.natAbs_natCast] at habs
      have hlt : (sign.apply (decreaseExponent m e (min e e')).1 +
          sign'.apply (decreaseExponent m' e' (min e e')).1).natAbs <
            2 ^ ((k - min e e').toNat + 1) := by
        rw [pow_succ]
        omega
      have htotal := totalExponent_le (e := min e e') (Int.natAbs_ne_zero.mpr hne) hlt
      change totalExponent m e ≤ k at hx
      have hlow : e + 1 ≤ k := by
        unfold totalExponent at hx
        omega
      omega

/-- A smaller mantissa has no more digits. -/
theorem totalExponent_mono {m n : ℕ} {e : ℤ} (h : m ≤ n) (hn : n ≠ 0) :
    totalExponent m e ≤ totalExponent n e := by
  have hlog : m.log2 ≤ n.log2 := by
    by_cases hm : m = 0
    · rw [hm, Nat.log2_zero]
      exact Nat.zero_le _
    · exact (Nat.le_log2 hn).mpr ((Nat.log2_self_le hm).trans h)
  unfold totalExponent
  omega

/-- The size of a quotient before rounding. -/
theorem totalExponent_divCore {m : ℕ} {e : ℤ} (hm : m ≠ 0) (spec : Format) (m' : ℕ) (e' : ℤ) :
    totalExponent (divCore spec m e m' e').1 (divCore spec m e m' e').2.1 ≤
      totalExponent m (e - e') := by
  have hexponent : (divCore spec m e m' e').2.1 =
      e - e' - ((e - e' - (divCore spec m e m' e').2.1).toNat : ℤ) := by
    have hle : (divCore spec m e m' e').2.1 ≤ e - e' := min_le_left _ _
    omega
  have hquotient : (divCore spec m e m' e').1 ≤
      m <<< (e - e' - (divCore spec m e m' e').2.1).toNat := Nat.div_le_self _ _
  have hne : m <<< (e - e' - (divCore spec m e m' e').2.1).toNat ≠ 0 := by
    rw [Nat.shiftLeft_eq]
    exact Nat.mul_ne_zero hm (Nat.two_pow_pos _).ne'
  generalize (e - e' - (divCore spec m e m' e').2.1).toNat = s at hexponent hquotient hne
  rw [hexponent]
  exact (totalExponent_mono hquotient hne).trans (totalExponent_shiftLeft hm)

/-- The quotient has the digits of the dividend at most, at the exponent of the quotient. -/
theorem hasSize_div {sign : Sign} {m : ℕ} {e : ℤ} {hpos : 0 < m} (hmin : spec.minExponent ≤ 0)
    (hx : HasSize k x) (he : -j ≤ e) :
    HasSize (k + j + 1) (div spec x (.finite sign m e hpos)) := by
  cases x with
  | notANumber | infinity sign => exact hx.elim
  | zero sign => exact trivial
  | finite sign' m' e' hpos' =>
    refine hasSize_roundWithAccuracy hmin ?_
    refine (totalExponent_divCore hpos'.ne' spec m e).trans ?_
    change totalExponent m' e' ≤ k at hx
    unfold totalExponent at hx ⊢
    omega

end Operations

section Doubles

/-- What the parts of a double are unpacked to, where it is neither an infinity nor a NaN. -/
theorem hasSize_unpack_packComponents {k : ℕ} {sign : Sign} {exponent : BitVec 11}
    {mantissa : BitVec 52} (h : exponent.toNat ≤ k + 1022) (hk : k ≤ 970) :
    HasSize k (unpack .binary64 (packComponents .binary64 sign exponent mantissa)) := by
  have hexponent : unpackExponent (packComponents .binary64 sign exponent mantissa) = exponent :=
    unpackExponent_packComponents
  have hmantissa : unpackMantissa (packComponents .binary64 sign exponent mantissa) = mantissa :=
    unpackMantissa_packComponents
  have hfinite : exponent ≠ -1#11 := by
    rintro rfl
    have hones : (-1#11).toNat = 2047 := by decide
    omega
  have hbias : Format.binary64.exponentBias = 1023 := rfl
  unfold UnpackedFloat.unpack
  dsimp only
  rw [if_neg fun hones => hfinite (hexponent.symm.trans hones)]
  by_cases hzero : exponent = 0#11
  · rw [if_pos (hexponent.trans hzero)]
    by_cases hempty : mantissa = 0#52
    · rw [dif_pos (hmantissa.trans hempty)]
      exact trivial
    · rw [dif_neg fun heq => hempty (hmantissa.symm.trans heq)]
      change totalExponent _ _ ≤ k
      rw [hmantissa, hexponent, hzero]
      have hne : mantissa.toNat ≠ 0 := fun heq => hempty (BitVec.toNat_inj.mp heq)
      refine (totalExponent_le hne mantissa.isLt).trans ?_
      rw [hbias]
      simp only [BitVec.toNat_zero]
      omega
  · rw [if_neg fun heq => hzero (hexponent.symm.trans heq)]
    change totalExponent _ _ ≤ k
    rw [hmantissa, hexponent, hbias]
    have hlt := (1#1 ++ mantissa).isLt
    have hpos : 0 < (1#1 ++ mantissa).toNat := by
      rw [BitVec.toNat_append, ← Nat.shiftLeft_add_eq_or_of_lt mantissa.isLt]
      exact Nat.add_pos_left (by decide) _
    refine (totalExponent_le hpos.ne' hlt).trans ?_
    omega

/-- A number that is not large is not changed into an infinity. -/
theorem hasSize_unpack_pack {k : ℕ} {x : UnpackedFloat} (h : HasSize k x) (hk : k ≤ 970) :
    HasSize k (unpack .binary64 (pack .binary64 x)) := by
  cases x with
  | notANumber | infinity sign => exact h.elim
  | zero sign => exact hasSize_unpack_packComponents (Nat.zero_le _) hk
  | finite sign m e hpos =>
    change totalExponent m e ≤ k at h
    have hbias : Format.binary64.exponentBias = 1023 := rfl
    unfold UnpackedFloat.pack
    simp only [hbias]
    have hlow : 0 ≤ (m.log2 : ℤ) := Int.natCast_nonneg _
    split_ifs with hlarge hnormal
    · unfold totalExponent at h
      omega
    · refine hasSize_unpack_packComponents ?_ hk
      have hbits : Format.binary64.mantissaBits = 53 := rfl
      rw [hbits] at hnormal
      rw [BitVec.toNat_ofNat]
      refine (Nat.mod_le _ _).trans ?_
      unfold totalExponent at h
      omega
    · exact hasSize_unpack_packComponents (Nat.zero_le _) hk

theorem minExponent_binary64 : Format.binary64.minExponent ≤ 0 := by decide

/-- A double that is neither an infinity nor a NaN, and below `2 ^ k`. -/
def IsBelow (k : ℕ) (x : Float) : Prop := HasSize k x.toModel.unpack
  deriving Decidable

variable {j k : ℕ} {x y : Float}

theorem IsBelow.mono (hjk : j ≤ k) (h : IsBelow j x) : IsBelow k x := HasSize.mono hjk h

/-- A product of bounded numbers. -/
theorem IsBelow.mul (hx : IsBelow j x) (hy : IsBelow k y) (h : j + k + 1 ≤ 970) :
    IsBelow (j + k + 1) (x * y) :=
  hasSize_unpack_pack (hasSize_mul minExponent_binary64 hx hy) h

/-- A sum of bounded numbers. -/
theorem IsBelow.add (hx : IsBelow k x) (hy : IsBelow k y) (h : k + 2 ≤ 970) :
    IsBelow (k + 2) (x + y) :=
  hasSize_unpack_pack (hasSize_add minExponent_binary64 hx hy) h

/-- The exponent of one is `-52`. -/
theorem IsBelow.div_one (hx : IsBelow k x) (h : k + 53 ≤ 970) : IsBelow (k + 53) (x / 1) := by
  have hone : (1 : Float).toModel.unpack = .finite .positive (2 ^ 52) (-52) (by decide) := rfl
  refine hasSize_unpack_pack ?_ h
  rw [hone]
  exact hasSize_div minExponent_binary64 hx (by decide)

/-- The largest double. -/
def dblMax : Float := Float.ofBits 0x7FEFFFFFFFFFFFFF

/-- Such a number is not too big. -/
theorem IsBelow.not_dblMax_le (hx : IsBelow k x) (h : k ≤ 970) : ¬dblMax ≤ x := by
  have hmax : dblMax.toModel.unpack = .finite .positive (2 ^ 53 - 1) 971 (by decide) := rfl
  unfold IsBelow at hx
  intro hle
  have hle : UnpackedFloat.le dblMax.toModel.unpack x.toModel.unpack = true :=
    of_decide_eq_true hle
  rw [hmax] at hle
  cases hunpack : x.toModel.unpack with
  | notANumber | infinity sign =>
    rw [hunpack] at hx
    exact hx.elim
  | zero sign =>
    rw [hunpack] at hle
    cases hle
  | finite sign m e hpos =>
    rw [hunpack] at hx hle
    change totalExponent m e ≤ k at hx
    cases sign with
    | negative => cases hle
    | positive =>
      have hlt : e < 971 := by
        unfold totalExponent at hx
        omega
      change ((compare (971 : ℤ) e).then (compare (2 ^ 53 - 1) m)).isLE = true at hle
      rw [compare_gt_iff_gt.mpr hlt] at hle
      cases hle

end Doubles

end FloatSizes
