import Mathlib.Data.Nat.Bitwise
import Mathlib.Data.Nat.Cast.Field
import Mathlib.Data.Rat.Floor

/-!
# Frame rates

`VideoInfo` has its frame rate as a fraction of two 32-bit numbers. `MulDivFPS`
multiplies it by another fraction: the terms of the product are reduced, and halved
together until both have 31 bits.
-/

namespace AviSynth

/-- The frame rate of a `VideoInfo`. -/
structure FrameRate where
  fpsNumerator : UInt32
  fpsDenominator : UInt32
  deriving DecidableEq, Repr

/-- Why an operation has no result. -/
inductive ArithmeticFault where
  | divisionByZero
  /-- A shift of an `int` by 32 or more. -/
  | undefinedShift
  deriving DecidableEq, Repr

/-- The loop that finds the greatest common divisor. -/
def gcdLoop (x y : ℕ) : ℕ :=
  if y = 0 then x else gcdLoop y (x % y)
termination_by y
decreasing_by exact Nat.mod_lt x (Nat.pos_of_ne_zero ‹_›)

/-- The loop that counts how often the terms must be halved. -/
def scaleLoop (temp u : ℕ) : ℕ :=
  if temp &&& 0xffffffff80000000 = 0 then u else scaleLoop (temp >>> 1) (u + 1)
termination_by temp
decreasing_by
  have hpos : temp ≠ 0 := by
    rintro rfl
    simp_all
  rw [Nat.shiftRight_one]
  omega

/-- The macro `UInt32x32To64`. -/
def uint32x32To64 (a b : UInt32) : ℕ := a.toNat * b.toNat % 2 ^ 64

namespace FrameRate

/-- `SetFPS`. -/
def setFPS (numerator denominator : UInt32) : FrameRate :=
  if numerator = 0 ∨ denominator = 0 then ⟨0, 1⟩
  else
    let x := UInt32.ofNat (gcdLoop numerator.toNat denominator.toNat)
    ⟨numerator / x, denominator / x⟩

/-- `MulDivFPS`. -/
def mulDivFPS (rate : FrameRate) (multiplier divisor : UInt32) :
    Except ArithmeticFault FrameRate :=
  let numerator := uint32x32To64 rate.fpsNumerator multiplier
  let denominator := uint32x32To64 rate.fpsDenominator divisor
  let x := gcdLoop numerator denominator
  if x = 0 then throw .divisionByZero
  else
    let numerator := numerator / x
    let denominator := denominator / x
    let u := scaleLoop (numerator ||| denominator) 0
    if u = 0 then return ⟨UInt32.ofNat numerator, UInt32.ofNat denominator⟩
    else if 32 ≤ u - 1 then throw .undefinedShift
    else
      let round := 2 ^ (u - 1)
      return setFPS (UInt32.ofNat (((numerator + round) % 2 ^ 64) >>> u))
        (UInt32.ofNat (((denominator + round) % 2 ^ 64) >>> u))

/-- The frame rate as a number. -/
def value (rate : FrameRate) : ℚ := rate.fpsNumerator.toNat / rate.fpsDenominator.toNat

/-- What `MulDivFPS` is to compute. -/
def exactProduct (rate : FrameRate) (multiplier divisor : UInt32) : ℚ :=
  (rate.fpsNumerator.toNat * multiplier.toNat) / (rate.fpsDenominator.toNat * divisor.toNat)

end FrameRate

/-- Both terms of a fraction have 31 bits when they are divided by a power of two. -/
def FitsScaled (x : ℚ) (u : ℕ) : Prop := x.num / 2 ^ u < 2 ^ 31 ∧ (x.den : ℤ) / 2 ^ u < 2 ^ 31

/-- Both terms of a fraction are divided by a power of two and rounded to the nearest
integer, halves up. There is no rate if one of them becomes zero. -/
def scaledValue (x : ℚ) (u : ℕ) : ℚ :=
  let numerator := round ((x.num : ℚ) / 2 ^ u)
  let denominator := round ((x.den : ℚ) / 2 ^ u)
  if denominator = 0 then 0 else numerator / denominator

theorem gcdLoop_eq (x y : ℕ) : gcdLoop x y = Nat.gcd x y := by
  induction y using Nat.strong_induction_on generalizing x with
  | _ y ih =>
    rw [gcdLoop]
    split
    · next hzero => simp [hzero]
    · next hne => rw [ih (x % y) (Nat.mod_lt x (Nat.pos_of_ne_zero hne)) y, Nat.gcd_comm x y,
        Nat.gcd_rec y x, Nat.gcd_comm]

/-- The mask lets the bits above the lowest 31 through. -/
theorem mask_eq_zero_iff {temp : ℕ} (h : temp < 2 ^ 64) :
    temp &&& 0xffffffff80000000 = 0 ↔ temp < 2 ^ 31 := by
  have hmask : (0xffffffff80000000 : ℕ) = (2 ^ 33 - 1) <<< 31 := by decide
  have hhigh : temp >>> 31 < 2 ^ 33 := by
    rw [Nat.shiftRight_eq_div_pow]
    omega
  have hand : temp &&& 0xffffffff80000000 = (temp >>> 31) <<< 31 := by
    rw [hmask]
    apply Nat.eq_of_testBit_eq
    intro i
    rw [Nat.testBit_and, Nat.testBit_shiftLeft, Nat.testBit_shiftLeft, Nat.testBit_shiftRight,
      Nat.testBit_two_pow_sub_one]
    by_cases hi : 31 ≤ i
    · have hshift : 31 + (i - 31) = i := by omega
      by_cases hlow : i - 31 < 33
      · simp [hi, hlow, hshift]
      · have hbit : temp.testBit i = false :=
          Nat.testBit_lt_two_pow (h.trans_le (Nat.pow_le_pow_right (by decide) (by omega)))
        simp [hi, hlow, hshift, hbit]
    · simp [hi]
  rw [hand, Nat.shiftLeft_eq, Nat.shiftRight_eq_div_pow]
  omega

/-- The loop finds the least number of halvings that leave 31 bits. -/
theorem scaleLoop_spec {temp : ℕ} (h : temp < 2 ^ 64) (u : ℕ) :
    ∃ w, scaleLoop temp u = u + w ∧ temp / 2 ^ w < 2 ^ 31 ∧ ∀ v < w, ¬temp / 2 ^ v < 2 ^ 31 := by
  induction temp using Nat.strong_induction_on generalizing u with
  | _ temp ih =>
    rw [scaleLoop]
    split
    · next hzero =>
      exact ⟨0, rfl, by simpa using (mask_eq_zero_iff h).mp hzero, fun v hv => absurd hv (by omega)⟩
    · next hlarge =>
      rw [mask_eq_zero_iff h] at hlarge
      have hhalf : temp >>> 1 = temp / 2 := Nat.shiftRight_one temp
      obtain ⟨w, hloop, hfits, hleast⟩ := ih (temp >>> 1) (by omega) (by omega) (u + 1)
      refine ⟨w + 1, by omega, ?_, fun v hv => ?_⟩
      · rwa [hhalf, Nat.div_div_eq_div_mul, ← Nat.pow_succ'] at hfits
      · cases v with
        | zero => simpa using hlarge
        | succ v =>
          have hv := hleast v (by omega)
          rwa [hhalf, Nat.div_div_eq_div_mul, ← Nat.pow_succ'] at hv

theorem uint32x32To64_eq (a b : UInt32) :
    uint32x32To64 a b = a.toNat * b.toNat ∧ a.toNat * b.toNat < 2 ^ 64 := by
  have hlt : a.toNat * b.toNat < 2 ^ 32 * 2 ^ 32 := Nat.mul_lt_mul'' a.toNat_lt b.toNat_lt
  exact ⟨Nat.mod_eq_of_lt hlt, hlt⟩

/-- Both terms fit when their common bits do. -/
theorem or_div_lt_iff (p q w : ℕ) :
    (p ||| q) / 2 ^ w < 2 ^ 31 ↔ p / 2 ^ w < 2 ^ 31 ∧ q / 2 ^ w < 2 ^ 31 := by
  simp only [← Nat.shiftRight_eq_div_pow, Nat.shiftRight_or_distrib]
  constructor
  · intro h
    exact ⟨Nat.left_le_or.trans_lt h, Nat.right_le_or.trans_lt h⟩
  · rintro ⟨hp, hq⟩
    exact Nat.or_lt_two_pow hp hq

/-- Adding half of the divisor before the division rounds to the nearest integer. -/
theorem round_div (p : ℕ) {u : ℕ} (hu : u ≠ 0) :
    (((p + 2 ^ (u - 1)) / 2 ^ u : ℕ) : ℤ) = round ((p : ℚ) / 2 ^ u) := by
  obtain ⟨w, rfl⟩ := Nat.exists_eq_succ_of_ne_zero hu
  have hhalf : (p : ℚ) / 2 ^ (w + 1) + 1 / 2 = ((p + 2 ^ w : ℕ) : ℚ) / ((2 ^ (w + 1) : ℕ) : ℚ) := by
    push_cast
    rw [pow_succ]
    field_simp
  rw [round_eq, Nat.succ_eq_add_one, hhalf, Rat.floor_natCast_div_natCast, Nat.add_sub_cancel,
    Int.natCast_div]

namespace FrameRate

/-- The rate that `SetFPS` leaves is reduced. -/
theorem setFPS_spec (numerator denominator : UInt32) :
    (setFPS numerator denominator).fpsDenominator ≠ 0 ∧
      (setFPS numerator denominator).fpsNumerator.toNat.Coprime
        (setFPS numerator denominator).fpsDenominator.toNat ∧
      (setFPS numerator denominator).value =
        if denominator = 0 then 0 else (numerator.toNat : ℚ) / denominator.toNat := by
  unfold setFPS
  split
  · next hzero =>
    refine ⟨by decide, by decide, ?_⟩
    obtain rfl | rfl := hzero <;> simp [value]
  · next hne =>
    obtain ⟨hn, hd⟩ := not_or.mp hne
    have hnpos : 0 < numerator.toNat := by
      rw [Nat.pos_iff_ne_zero]
      exact fun h => hn (UInt32.toNat_inj.mp h)
    have hdpos : 0 < denominator.toNat := by
      rw [Nat.pos_iff_ne_zero]
      exact fun h => hd (UInt32.toNat_inj.mp h)
    have hg : (UInt32.ofNat (gcdLoop numerator.toNat denominator.toNat)).toNat =
        numerator.toNat.gcd denominator.toNat := by
      rw [gcdLoop_eq]
      exact Nat.mod_eq_of_lt ((Nat.gcd_le_left _ hnpos).trans_lt numerator.toNat_lt)
    have hgpos : 0 < numerator.toNat.gcd denominator.toNat := Nat.gcd_pos_of_pos_left _ hnpos
    have hdvd := Nat.gcd_dvd_right numerator.toNat denominator.toNat
    refine ⟨fun h => ?_, ?_, ?_⟩
    · have hquot := congrArg UInt32.toNat h
      rw [UInt32.toNat_div, hg] at hquot
      exact absurd hquot (Nat.div_pos (Nat.le_of_dvd hdpos hdvd) hgpos).ne'
    · simp only [UInt32.toNat_div, hg]
      exact Nat.coprime_div_gcd_div_gcd hgpos
    · simp only [value, UInt32.toNat_div, hg, if_neg hd]
      rw [Nat.cast_div (Nat.gcd_dvd_left _ _) (by exact_mod_cast hgpos.ne'),
        Nat.cast_div hdvd (by exact_mod_cast hgpos.ne'), div_div_div_cancel_right₀]
      exact_mod_cast hgpos.ne'

/-- The terms of the product are not both zero, and its reduced terms are what is left
after the division by the greatest common divisor. -/
theorem exactProduct_terms (rate : FrameRate) (multiplier divisor : UInt32)
    (hrate : rate.fpsDenominator ≠ 0) (hdivisor : divisor ≠ 0) :
    let n := rate.fpsNumerator.toNat * multiplier.toNat
    let d := rate.fpsDenominator.toNat * divisor.toNat
    n.gcd d ≠ 0 ∧ (rate.exactProduct multiplier divisor).num = (n / n.gcd d : ℕ) ∧
      (rate.exactProduct multiplier divisor).den = d / n.gcd d := by
  intro n d
  have hd : 0 < d := by
    refine Nat.mul_pos ?_ ?_
    · exact Nat.pos_of_ne_zero fun h => hrate (UInt32.toNat_inj.mp h)
    · exact Nat.pos_of_ne_zero fun h => hdivisor (UInt32.toNat_inj.mp h)
  have hg : 0 < n.gcd d := Nat.gcd_pos_of_pos_right n hd
  have hgne : (n.gcd d : ℚ) ≠ 0 := by exact_mod_cast hg.ne'
  have hcoprime : (n / n.gcd d).Coprime (d / n.gcd d) := Nat.coprime_div_gcd_div_gcd hg
  have hquot : 0 < d / n.gcd d :=
    Nat.div_pos (Nat.le_of_dvd hd (Nat.gcd_dvd_right n d)) hg
  have hvalue : rate.exactProduct multiplier divisor =
      (((n / n.gcd d : ℕ) : ℤ) : ℚ) / (((d / n.gcd d : ℕ) : ℤ) : ℚ) := by
    rw [Int.cast_natCast, Int.cast_natCast, Nat.cast_div (Nat.gcd_dvd_left n d) hgne,
      Nat.cast_div (Nat.gcd_dvd_right n d) hgne, div_div_div_cancel_right₀ hgne]
    simp [exactProduct, n, d]
  have hquot' : (0 : ℤ) < ((d / n.gcd d : ℕ) : ℤ) := by exact_mod_cast hquot
  refine ⟨hg.ne', ?_, ?_⟩
  · rw [hvalue]
    exact Rat.num_div_eq_of_coprime hquot' hcoprime
  · have hden := @Rat.den_div_eq_of_coprime ((n / n.gcd d : ℕ) : ℤ) _ hquot' hcoprime
    rw [hvalue]
    exact_mod_cast hden

/-- What `MulDivFPS` computes, in terms of the exact product. -/
theorem mulDivFPS_eq (rate : FrameRate) (multiplier divisor : UInt32)
    (hrate : rate.fpsDenominator ≠ 0) (hdivisor : divisor ≠ 0) {p q : ℕ}
    (hp : (rate.exactProduct multiplier divisor).num = p)
    (hq : (rate.exactProduct multiplier divisor).den = q) :
    p < 2 ^ 64 ∧ q < 2 ^ 64 ∧ rate.mulDivFPS multiplier divisor =
      let u := scaleLoop (p ||| q) 0
      if u = 0 then .ok ⟨UInt32.ofNat p, UInt32.ofNat q⟩
      else if 32 ≤ u - 1 then .error .undefinedShift
      else .ok (setFPS (UInt32.ofNat (((p + 2 ^ (u - 1)) % 2 ^ 64) >>> u))
        (UInt32.ofNat (((q + 2 ^ (u - 1)) % 2 ^ 64) >>> u))) := by
  obtain ⟨hg, hnum, hden⟩ := exactProduct_terms rate multiplier divisor hrate hdivisor
  obtain ⟨hn, hnlt⟩ := uint32x32To64_eq rate.fpsNumerator multiplier
  obtain ⟨hd, hdlt⟩ := uint32x32To64_eq rate.fpsDenominator divisor
  have hp' := hp.symm.trans hnum
  have hq' := hq.symm.trans hden
  norm_cast at hp'
  refine ⟨?_, ?_, ?_⟩
  · exact hp' ▸ (Nat.div_le_self _ _).trans_lt hnlt
  · exact hq' ▸ (Nat.div_le_self _ _).trans_lt hdlt
  · simp only [mulDivFPS, hn, hd, gcdLoop_eq, if_neg hg, ← hp', ← hq']
    rfl

/-- A term that has been scaled to 31 bits and rounded. -/
theorem scaledTerm {p u : ℕ} (hu : u ≠ 0) (hshift : u ≤ 32) (hfits : p / 2 ^ u < 2 ^ 31) :
    ((UInt32.ofNat (((p + 2 ^ (u - 1)) % 2 ^ 64) >>> u)).toNat : ℤ) = round ((p : ℚ) / 2 ^ u) := by
  have hpos : 0 < 2 ^ u := Nat.two_pow_pos u
  have hp : p < 2 ^ 31 * 2 ^ u := (Nat.div_lt_iff_lt_mul hpos).mp hfits
  have hpow : 2 ^ u ≤ 2 ^ 32 := Nat.pow_le_pow_right (by decide) hshift
  have hround : 2 ^ (u - 1) ≤ 2 ^ u := Nat.pow_le_pow_right (by decide) (by omega)
  have hsum : p + 2 ^ (u - 1) < 2 ^ 64 := by omega
  have hquot : (p + 2 ^ (u - 1)) / 2 ^ u < 2 ^ 32 := by
    rw [Nat.div_lt_iff_lt_mul hpos]
    omega
  rw [Nat.mod_eq_of_lt hsum, Nat.shiftRight_eq_div_pow, UInt32.toNat_ofNat_of_lt' hquot,
    round_div p hu]

/-- A scaled rate is the reduced fraction of the rounded terms. -/
theorem setFPS_scaled {x : ℚ} {p q u : ℕ} (hp : x.num = p) (hq : x.den = q) (hu : u ≠ 0)
    (hshift : u ≤ 32) (hfits : p / 2 ^ u < 2 ^ 31 ∧ q / 2 ^ u < 2 ^ 31) :
    (setFPS (UInt32.ofNat (((p + 2 ^ (u - 1)) % 2 ^ 64) >>> u))
      (UInt32.ofNat (((q + 2 ^ (u - 1)) % 2 ^ 64) >>> u))).value = scaledValue x u := by
  have hnum := scaledTerm hu hshift hfits.1
  have hden := scaledTerm hu hshift hfits.2
  obtain ⟨-, -, hvalue⟩ := setFPS_spec
    (UInt32.ofNat (((p + 2 ^ (u - 1)) % 2 ^ 64) >>> u))
    (UInt32.ofNat (((q + 2 ^ (u - 1)) % 2 ^ 64) >>> u))
  rw [hvalue, scaledValue, hp, hq, Int.cast_natCast, ← hnum, ← hden]
  simp only [Nat.cast_eq_zero, ← UInt32.toNat_inj, Int.cast_natCast]
  rfl

end FrameRate

theorem fitsScaled_iff {x : ℚ} {p q : ℕ} (hp : x.num = p) (hq : x.den = q) (u : ℕ) :
    FitsScaled x u ↔ p / 2 ^ u < 2 ^ 31 ∧ q / 2 ^ u < 2 ^ 31 := by
  rw [FitsScaled, hp, hq]
  norm_cast

open FrameRate

/-- `MulDivFPS` leaves a reduced rate. It is the exact product if both its terms have 31
bits; otherwise its terms are divided by the least power of two that makes them fit, and
rounded. -/
theorem mulDivFPS_scaled (rate : FrameRate) (multiplier divisor : UInt32)
    (hrate : rate.fpsDenominator ≠ 0) (hdivisor : divisor ≠ 0)
    (hnum : (rate.exactProduct multiplier divisor).num < 2 ^ 63)
    (hden : (rate.exactProduct multiplier divisor).den < 2 ^ 63) :
    ∃ r, rate.mulDivFPS multiplier divisor = .ok r ∧ r.fpsDenominator ≠ 0 ∧
      r.fpsNumerator.toNat.Coprime r.fpsDenominator.toNat ∧
      (FitsScaled (rate.exactProduct multiplier divisor) 0 →
        r.value = rate.exactProduct multiplier divisor) ∧
      (¬FitsScaled (rate.exactProduct multiplier divisor) 0 →
        ∃ u, FitsScaled (rate.exactProduct multiplier divisor) u ∧
          (∀ v < u, ¬FitsScaled (rate.exactProduct multiplier divisor) v) ∧
          r.value = scaledValue (rate.exactProduct multiplier divisor) u) := by
  obtain ⟨-, hnum', -⟩ := exactProduct_terms rate multiplier divisor hrate hdivisor
  obtain ⟨p, hp⟩ : ∃ p : ℕ, (rate.exactProduct multiplier divisor).num = p := ⟨_, hnum'⟩
  obtain ⟨q, hq⟩ : ∃ q : ℕ, (rate.exactProduct multiplier divisor).den = q := ⟨_, rfl⟩
  obtain ⟨hplt, hqlt, hresult⟩ := mulDivFPS_eq rate multiplier divisor hrate hdivisor hp hq
  obtain ⟨u, hu, hfits, hleast⟩ := scaleLoop_spec (Nat.or_lt_two_pow hplt hqlt) 0
  rw [Nat.zero_add] at hu
  rw [or_div_lt_iff] at hfits
  have hfitsX := (fitsScaled_iff hp hq u).mpr hfits
  have hleastX : ∀ v < u, ¬FitsScaled (rate.exactProduct multiplier divisor) v := by
    rintro v hv hfitsV
    exact hleast v hv ((or_div_lt_iff p q v).mpr ((fitsScaled_iff hp hq v).mp hfitsV))
  have hq0 : 0 < q := hq ▸ (rate.exactProduct multiplier divisor).den_pos
  simp only [hu] at hresult
  by_cases hzero : u = 0
  · -- Nothing is scaled.
    subst hzero
    simp only [pow_zero, Nat.div_one] at hfits
    have hsize : 2 ^ 31 ≤ UInt32.size := by decide
    have hpterm : (UInt32.ofNat p).toNat = p :=
      UInt32.toNat_ofNat_of_lt' (hfits.1.trans_le hsize)
    have hqterm : (UInt32.ofNat q).toNat = q :=
      UInt32.toNat_ofNat_of_lt' (hfits.2.trans_le hsize)
    have hcoprime : p.Coprime q := by
      have hreduced := (rate.exactProduct multiplier divisor).reduced
      rwa [hp, hq, Int.natAbs_natCast] at hreduced
    refine ⟨_, by simpa using hresult, ?_, by simpa only [hpterm, hqterm] using hcoprime, ?_,
      fun hnot => absurd hfitsX hnot⟩
    · intro h
      have hq' := congrArg UInt32.toNat h
      rw [hqterm] at hq'
      exact absurd hq' hq0.ne'
    · intro
      have hcast : ((rate.exactProduct multiplier divisor).num : ℚ) = p := by
        rw [hp, Int.cast_natCast]
      rw [value, hpterm, hqterm, ← hq, ← hcast, Rat.num_div_den]
  · have hshift : u ≤ 32 := by
      by_contra hlarge
      have hfits32 := hleastX 32 (by omega)
      rw [fitsScaled_iff hp hq] at hfits32
      omega
    have hguard : ¬32 ≤ u - 1 := by omega
    rw [if_neg hzero, if_neg hguard] at hresult
    obtain ⟨hden0, hcoprime, -⟩ := setFPS_spec
      (UInt32.ofNat (((p + 2 ^ (u - 1)) % 2 ^ 64) >>> u))
      (UInt32.ofNat (((q + 2 ^ (u - 1)) % 2 ^ 64) >>> u))
    exact ⟨_, hresult, hden0, hcoprime, fun h => absurd h (hleastX 0 (by omega)),
      fun _ => ⟨u, hfitsX, hleastX, setFPS_scaled hp hq hzero hshift hfits⟩⟩

/-- The rate of 24000/1001 frames, doubled. -/
theorem mulDivFPS_scaled_film :
    ∃ r, mulDivFPS ⟨24000, 1001⟩ 2 1 = .ok r ∧ r.fpsDenominator ≠ 0 ∧
      r.fpsNumerator.toNat.Coprime r.fpsDenominator.toNat ∧
      (FitsScaled (exactProduct ⟨24000, 1001⟩ 2 1) 0 →
        r.value = exactProduct ⟨24000, 1001⟩ 2 1) ∧
      (¬FitsScaled (exactProduct ⟨24000, 1001⟩ 2 1) 0 →
        ∃ u, FitsScaled (exactProduct ⟨24000, 1001⟩ 2 1) u ∧
          (∀ v < u, ¬FitsScaled (exactProduct ⟨24000, 1001⟩ 2 1) v) ∧
          r.value = scaledValue (exactProduct ⟨24000, 1001⟩ 2 1) u) := by
  obtain ⟨-, hnum, hden⟩ := exactProduct_terms ⟨24000, 1001⟩ 2 1 (by decide) (by decide)
  refine mulDivFPS_scaled ⟨24000, 1001⟩ 2 1 (by decide) (by decide) ?_ ?_
  · rw [hnum]
    decide
  · rw [hden]
    decide

/-- A rate is reduced, and nearest to a number among those that scaling both terms of
the number by one power of two leads to. -/
def IsNearestRate (r : FrameRate) (x : ℚ) : Prop :=
  r.fpsDenominator ≠ 0 ∧ r.fpsNumerator.toNat.Coprime r.fpsDenominator.toNat ∧
    (FitsScaled x 0 → r.value = x) ∧
    (¬FitsScaled x 0 → ∀ u, FitsScaled x u → round ((x.den : ℚ) / 2 ^ u) ≠ 0 →
      |r.value - x| ≤ |scaledValue x u - x|)

/-- The least power of two does not always lead to the nearest rate: with the next one
the rounding of both terms can lead nearer. -/
theorem mulDivFPS_notNearest :
    ¬∀ (rate : FrameRate) (multiplier divisor : UInt32),
      ∃ r, rate.mulDivFPS multiplier divisor = .ok r ∧
        IsNearestRate r (rate.exactProduct multiplier divisor) := by
  intro hall
  obtain ⟨r, hr, -, -, -, hnearest⟩ := hall ⟨1353948113, 31⟩ 4 1
  obtain ⟨-, hnum, hden⟩ := exactProduct_terms ⟨1353948113, 31⟩ 4 1 (by decide) (by decide)
  obtain ⟨x, hx⟩ : ∃ x, x = exactProduct ⟨1353948113, 31⟩ 4 1 := ⟨_, rfl⟩
  replace hnum : x.num = (5415792452 : ℕ) := hx ▸ hnum.trans (by decide)
  replace hden : x.den = 31 := hx ▸ hden.trans (by decide)
  obtain ⟨-, -, hresult⟩ :=
    mulDivFPS_eq ⟨1353948113, 31⟩ 4 1 (by decide) (by decide) (hx ▸ hnum) (hx ▸ hden)
  have hscale : scaleLoop (5415792452 ||| 31) 0 = 2 := by
    rw [scaleLoop, if_neg (by decide), scaleLoop, if_neg (by decide), scaleLoop,
      if_pos (by decide)]
  simp only [hscale] at hresult
  rw [← hx] at hnearest
  have hvalue : r.value = scaledValue x 2 := by
    have hok := hr.symm.trans hresult
    rw [if_neg (by decide), if_neg (by decide)] at hok
    rw [Except.ok.inj hok]
    exact setFPS_scaled hnum hden (by decide) (by decide) (by decide)
  have hscaled : ∀ u, scaledValue x (u + 1) =
      (((5415792452 + 2 ^ u) / 2 ^ (u + 1) : ℕ) : ℚ) / (((31 + 2 ^ u) / 2 ^ (u + 1) : ℕ) : ℚ) := by
    intro u
    have hn := round_div 5415792452 (Nat.succ_ne_zero u)
    have hd := round_div 31 (Nat.succ_ne_zero u)
    rw [Nat.succ_eq_add_one, Nat.add_sub_cancel] at hn hd
    rw [scaledValue, hnum, hden, Int.cast_natCast, ← hn, ← hd]
    split
    · next hzero =>
      rw [Int.natCast_eq_zero.mp hzero, Nat.cast_zero, div_zero]
    · rw [Int.cast_natCast, Int.cast_natCast]
  have htwo : scaledValue x 2 = 1353948113 / 8 := by
    rw [hscaled 1]
    norm_num
  have hthree : scaledValue x 3 = 676974057 / 4 := by
    rw [hscaled 2]
    norm_num
  have hexact : x = 5415792452 / 31 := by
    rw [← Rat.num_div_den x, hnum, hden]
    norm_num
  have hcontra := hnearest ?_ 3 ?_ ?_
  · rw [hvalue, htwo, hthree, hexact] at hcontra
    norm_num [abs_of_neg] at hcontra
  · rw [fitsScaled_iff hnum hden]
    decide
  · rw [fitsScaled_iff hnum hden]
    decide
  · rw [hden]
    norm_num

end AviSynth
