import Mathlib.Data.Int.ModEq
import Mathlib.Tactic.Linarith
import Mathlib.Tactic.Ring

/-!
# Integers of two words

A signed integer of two machine words, with the schoolbook product, the sum with a
carry, the negation and the shift to the right. Sums and negations are exact up to
full turns of both words, so that a result in range is exact.
-/

/-- A signed high word and an unsigned low word. -/
structure WideInt (w : ℕ) where
  H : BitVec w
  L : BitVec w
  deriving DecidableEq

namespace WideInt

variable {w : ℕ}

/-- The signed number that the halves stand for. -/
def value (x : WideInt w) : ℤ := x.H.toInt * 2 ^ w + x.L.toNat

/-- The sum, with the carry that a wrapped low word shows. -/
def add (x y : WideInt w) : WideInt w where
  H := x.H + y.H + if x.L + y.L < x.L then 1 else 0
  L := x.L + y.L

/-- The negation in two's complement. -/
def neg (x : WideInt w) : WideInt w where
  H := ~~~x.H + if ~~~x.L + 1 = 0 then 1 else 0
  L := ~~~x.L + 1

/-- The low word after a shift to the right by less than a word. -/
def shiftRight (x : WideInt w) (shift : ℕ) : BitVec w := x.H <<< (w - shift) ||| x.L >>> shift

/-- A signed word is its unsigned value up to full turns. -/
theorem toInt_modEq_toNat (x : BitVec w) : x.toInt ≡ x.toNat [ZMOD 2 ^ w] := by
  rw [BitVec.toInt_eq_toNat_bmod]
  exact_mod_cast Int.bmod_emod

theorem toInt_add_modEq (x y : BitVec w) : (x + y).toInt ≡ x.toInt + y.toInt [ZMOD 2 ^ w] := by
  rw [BitVec.toInt_add]
  exact_mod_cast Int.bmod_emod

/-- What a carry into the high word changes. -/
theorem toInt_add_carry_modEq (x : BitVec w) (p : Prop) [Decidable p] :
    (x + if p then 1 else 0).toInt ≡ x.toInt + (if p then 1 else 0) [ZMOD 2 ^ w] := by
  split_ifs
  · refine (toInt_add_modEq x 1#w).trans (Int.ModEq.add_left _ ((toInt_modEq_toNat 1#w).trans ?_))
    rw [BitVec.toNat_ofNat]
    exact_mod_cast Int.mod_modEq 1 (2 ^ w)
  · rw [Int.add_zero]
    exact congrArg (· % (2 ^ w : ℤ)) (congrArg BitVec.toInt (BitVec.add_zero x))

/-- A wrapped sum of low words is one turn short. -/
theorem toNat_add_carry (x y : BitVec w) :
    ((x + y).toNat : ℤ) = x.toNat + y.toNat - if x + y < x then 2 ^ w else 0 := by
  have hx := x.isLt
  have hy := y.isLt
  have hcast : ((2 ^ w : ℕ) : ℤ) = 2 ^ w := by push_cast; rfl
  by_cases hwrap : x.toNat + y.toNat < 2 ^ w
  · have hsum : (x + y).toNat = x.toNat + y.toNat := by
      rw [BitVec.toNat_add, Nat.mod_eq_of_lt hwrap]
    rw [if_neg (by rw [BitVec.lt_def]; omega)]
    omega
  · have hsum : (x + y).toNat = x.toNat + y.toNat - 2 ^ w := by
      rw [BitVec.toNat_add, Nat.mod_eq_sub_mod (by omega), Nat.mod_eq_of_lt (by omega)]
    rw [if_pos (by rw [BitVec.lt_def]; omega)]
    omega

/-- Sums are exact up to full turns. -/
theorem value_add_modEq (x y : WideInt w) :
    (x.add y).value ≡ x.value + y.value [ZMOD 2 ^ w * 2 ^ w] := by
  have hhigh : (x.add y).H.toInt ≡
      x.H.toInt + y.H.toInt + (if x.L + y.L < x.L then 1 else 0) [ZMOD 2 ^ w] :=
    (toInt_add_carry_modEq _ _).trans ((toInt_add_modEq _ _).add_right _)
  have hlow : ((x.add y).L.toNat : ℤ) = _ := toNat_add_carry x.L y.L
  rw [value, hlow]
  have hexact : (x.H.toInt + y.H.toInt + (if x.L + y.L < x.L then 1 else 0)) * 2 ^ w +
      (x.L.toNat + y.L.toNat - if x.L + y.L < x.L then 2 ^ w else 0) = x.value + y.value := by
    rw [value, value]
    split_ifs <;> ring
  rw [← hexact]
  exact hhigh.mul_right'.add_right _

/-- Negations are exact up to full turns. -/
theorem value_neg_modEq (x : WideInt w) : x.neg.value ≡ -x.value [ZMOD 2 ^ w * 2 ^ w] := by
  have hlt := x.L.isLt
  have hcast : ((2 ^ w : ℕ) : ℤ) = 2 ^ w := by push_cast; rfl
  have hneg : ~~~x.L + 1 = -x.L := (BitVec.neg_eq_not_add x.L).symm
  have hnot : (~~~x.H).toInt ≡ -x.H.toInt - 1 [ZMOD 2 ^ w] := by
    have hturn : (~~~x.H).toInt ≡ 2 ^ w - 1 - x.H.toNat [ZMOD 2 ^ w] := by
      rw [BitVec.toInt_not]
      exact_mod_cast Int.bmod_emod
    refine hturn.trans (((toInt_modEq_toNat x.H).symm.sub_left _).trans ?_)
    exact Int.modEq_iff_dvd.mpr ⟨-1, by ring⟩
  have hhigh : x.neg.H.toInt ≡
      -x.H.toInt - 1 + (if ~~~x.L + 1 = 0 then 1 else 0) [ZMOD 2 ^ w] :=
    (toInt_add_carry_modEq _ _).trans (hnot.add_right _)
  have hlow : (x.neg.L.toNat : ℤ) =
      2 ^ w - x.L.toNat - if ~~~x.L + 1 = 0 then 2 ^ w else 0 := by
    change ((~~~x.L + 1).toNat : ℤ) = _
    rw [hneg, BitVec.toNat_neg]
    by_cases hzero : x.L = 0
    · simp [hzero]
    · have hpos : x.L.toNat ≠ 0 := fun h => hzero (BitVec.eq_of_toNat_eq h)
      rw [Nat.mod_eq_of_lt (by omega), if_neg (by simpa using hzero)]
      omega
  rw [value, hlow]
  have hexact : (-x.H.toInt - 1 + (if ~~~x.L + 1 = 0 then 1 else 0)) * 2 ^ w +
      (2 ^ w - x.L.toNat - if ~~~x.L + 1 = 0 then 2 ^ w else 0) = -x.value := by
    rw [value]
    split_ifs <;> ring
  rw [← hexact]
  exact hhigh.mul_right'.add_right _

/-- A word that is a number in range up to full turns is that number. -/
theorem toInt_eq_of_modEq {x : BitVec w} {n : ℤ} (h : x.toInt ≡ n [ZMOD 2 ^ w])
    (hlow : -2 ^ w ≤ 2 * n) (hhigh : 2 * n < 2 ^ w) : x.toInt = n := by
  have hxlow := x.le_two_mul_toInt
  have hxhigh := x.two_mul_toInt_lt
  have hzero := Int.eq_zero_of_abs_lt_dvd h.symm.dvd (abs_lt.mpr ⟨by omega, by omega⟩)
  omega

theorem value_range (x : WideInt w) :
    -(2 ^ w * 2 ^ w) ≤ 2 * x.value ∧ 2 * x.value < 2 ^ w * 2 ^ w := by
  have hxlow := x.H.le_two_mul_toInt
  have hxhigh := x.H.two_mul_toInt_lt
  have hlow : (x.L.toNat : ℤ) < 2 ^ w := by exact_mod_cast x.L.isLt
  rw [value]
  cases w with
  | zero =>
    simp only [pow_zero] at *
    omega
  | succ w =>
    have heven : 2 * x.H.toInt ≤ 2 ^ (w + 1) - 2 := by
      rw [pow_succ] at *
      omega
    constructor <;> nlinarith [pow_pos (two_pos : (0 : ℤ) < 2) (w + 1)]

/-- A value that is a number in range up to full turns is that number. -/
theorem value_eq_of_modEq {x : WideInt w} {n : ℤ} (h : x.value ≡ n [ZMOD 2 ^ w * 2 ^ w])
    (hlow : -(2 ^ w * 2 ^ w) ≤ 2 * n) (hhigh : 2 * n < 2 ^ w * 2 ^ w) : x.value = n := by
  obtain ⟨hxlow, hxhigh⟩ := x.value_range
  have hzero := Int.eq_zero_of_abs_lt_dvd h.symm.dvd (abs_lt.mpr ⟨by omega, by omega⟩)
  omega

/-- A shift to the right divides, up to full turns of the word that is left. -/
theorem toInt_shiftRight_modEq (x : WideInt w) {shift : ℕ} (hshift : shift ≤ w) :
    (x.shiftRight shift).toInt ≡ x.value / 2 ^ shift [ZMOD 2 ^ w] := by
  obtain ⟨rest, rfl⟩ := Nat.exists_eq_add_of_le hshift
  have hlow : x.L.toNat / 2 ^ shift < 2 ^ rest :=
    Nat.div_lt_of_lt_mul (by rw [← pow_add]; exact x.L.isLt)
  have hword : (x.shiftRight shift).toNat =
      x.H.toNat % 2 ^ shift * 2 ^ rest + x.L.toNat / 2 ^ shift := by
    rw [shiftRight, BitVec.toNat_or, BitVec.toNat_shiftLeft, BitVec.toNat_ushiftRight,
      Nat.add_sub_cancel_left, Nat.shiftLeft_eq, Nat.shiftRight_eq_div_pow, pow_add,
      Nat.mul_mod_mul_right, ← Nat.shiftLeft_eq, ← Nat.shiftLeft_add_eq_or_of_lt hlow]
  have hvalue : x.value / 2 ^ shift = x.H.toInt * 2 ^ rest + x.L.toNat / 2 ^ shift := by
    have hpos : (2 ^ shift : ℤ) ≠ 0 := by positivity
    rw [value, pow_add, mul_left_comm, mul_comm (2 ^ shift : ℤ), add_comm,
      Int.add_mul_ediv_right _ _ hpos, add_comm]
  have hhigh : (x.H.toNat % 2 ^ shift * 2 ^ rest : ℤ) ≡ x.H.toInt * 2 ^ rest
      [ZMOD 2 ^ (shift + rest)] := by
    have hturn : (x.H.toNat % 2 ^ shift : ℤ) ≡ x.H.toInt [ZMOD 2 ^ shift] :=
      (Int.mod_modEq _ _).trans
        ((toInt_modEq_toNat x.H).symm.of_dvd (pow_dvd_pow 2 (Nat.le_add_right shift rest)))
    rw [pow_add]
    exact hturn.mul_right'
  refine (toInt_modEq_toNat _).trans ?_
  rw [hword, hvalue]
  push_cast
  exact hhigh.add_right _

/-- The schoolbook product of two numbers with two digits each. -/
theorem longProduct (base x y : ℕ) :
    let low := x % base * (y % base)
    let left := x / base * (y % base)
    let right := x % base * (y / base)
    let mid := low / base + left % base + right % base
    base * base * (left / base + right / base + x / base * (y / base) + mid / base) +
      (base * (mid % base) + low % base) = x * y := by
  intro low left right mid
  have hlow : base * (low / base) + low % base = low := Nat.div_add_mod ..
  have hleft : base * (left / base) + left % base = left := Nat.div_add_mod ..
  have hright : base * (right / base) + right % base = right := Nat.div_add_mod ..
  have hmid : base * (mid / base) + mid % base = mid := Nat.div_add_mod ..
  calc base * base * (left / base + right / base + x / base * (y / base) + mid / base) +
        (base * (mid % base) + low % base)
      = base * (base * (left / base) + base * (right / base) + base * (x / base * (y / base)) +
          (base * (mid / base) + mid % base)) + low % base := by ring
    _ = base * (base * (left / base) + left % base + (base * (right / base) + right % base) +
          base * (x / base * (y / base))) + (base * (low / base) + low % base) := by
        rw [hmid]
        simp only [mid]
        ring
    _ = (base * (x / base) + x % base) * (base * (y / base) + y % base) := by
        rw [hlow, hleft, hright]
        simp only [low, left, right]
        ring
    _ = x * y := by rw [Nat.div_add_mod, Nat.div_add_mod]

end WideInt
