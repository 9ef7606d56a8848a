import AviSynth.Library.MachineInt
import AviSynth.Language.Values
import Mathlib.Tactic.Ring

/-!
# The operators on integers

The integer operators compute with 64 bits, whatever the types of the operands, and keep
the smaller type. This file compares what they give with the exact result, and with what
a machine operation is defined for: the operators guard a division by zero only.
-/

namespace AviSynth

namespace Language

open MachineInt Arithmetic

variable {F D : Type}

namespace AVSValue

/-- `v` is the number `z`, stored as `int` exactly if it fits in 32 bits. -/
def Stores (v : AVSValue F D) (z : ℤ) : Prop :=
  if -2 ^ 31 ≤ z ∧ z < 2 ^ 31 then ∃ i, v = int i ∧ i.toInt = z
  else ∃ l, v = long l ∧ l.toInt = z

/-- A value stores one number. -/
theorem Stores.unique {v : AVSValue F D} {z w : ℤ} (hz : v.Stores z) (hw : v.Stores w) :
    z = w := by
  unfold Stores at hz hw
  split at hz <;> obtain ⟨i, rfl, rfl⟩ := hz
  all_goals
    split at hw <;> obtain ⟨j, hj, rfl⟩ := hw <;> cases hj
    rfl

end AVSValue

/-- The smaller type loses nothing. -/
theorem keepSmaller_stores (result : Int64) :
    (keepSmaller result : AVSValue F D).Stores result.toInt := by
  have hlow : (-2147483648 : Int64) ≤ result ↔ -2 ^ 31 ≤ result.toInt := Int64.le_iff_toInt_le
  have hhigh : result ≤ (2147483647 : Int64) ↔ result.toInt < 2 ^ 31 := by
    have hmax : ((2147483647 : Int64)).toInt = 2147483647 := by decide
    rw [Int64.le_iff_toInt_le, hmax]
    omega
  unfold AVSValue.Stores keepSmaller
  simp only [hlow, hhigh]
  split
  · rename_i hfits
    refine ⟨result.toInt32, rfl, ?_⟩
    rw [Int64.toInt_toInt32]
    exact i32_of_range hfits.1 hfits.2
  · exact ⟨result, rfl, rfl⟩

/-- A result stores the number that it is, and no other. -/
theorem keepSmaller_stores_iff {result : Int64} {z : ℤ} :
    (keepSmaller result : AVSValue F D).Stores z ↔ result.toInt = z := by
  constructor
  · intro h
    exact (keepSmaller_stores result).unique h
  · rintro rfl
    exact keepSmaller_stores result

namespace Arithmetic

/-- The exact result. The quotient is truncated toward zero. -/
def exact : Arithmetic → ℤ → ℤ → ℤ
  | plus, m, n => m + n
  | minus, m, n => m - n
  | mult, m, n => m * n
  | div, m, n => m.tdiv n
  | mod, m, n => m.tmod n

/-- The operator raises its own error, before it computes anything. -/
def Guarded : Arithmetic → Int64 → Prop
  | div, n | mod, n => n = 0
  | plus, _ | minus, _ | mult, _ => False

/-- The operation of 64 bits is defined. Both the quotient and the remainder are undefined
where the quotient does not fit. -/
def Defined : Arithmetic → Int64 → Int64 → Prop
  | plus, m, n => IsInt64 (m.toInt + n.toInt)
  | minus, m, n => IsInt64 (m.toInt - n.toInt)
  | mult, m, n => IsInt64 (m.toInt * n.toInt)
  | div, m, n | mod, m, n => n ≠ 0 ∧ IsInt64 (m.toInt.tdiv n.toInt)

/-- What the operator has to do on two integers: raise an error, or perform a defined
operation and give its exact result. -/
def Meets (op : Arithmetic) (m n : Int64) (result : Result F D (AVSValue F D)) : Prop :=
  (¬op.Guarded n → op.Defined m n) ∧
    ((∃ msg, result = .error (.avisynthError msg)) ∨
      ∃ v, result = .ok v ∧ v.Stores (op.exact m.toInt n.toInt))

/-- The operands on which the operator is right: no sum, difference or product leaves 64
bits, and the smallest number is not divided by -1. -/
def Holds : Arithmetic → Int64 → Int64 → Prop
  | plus, m, n => IsInt64 (m.toInt + n.toInt)
  | minus, m, n => IsInt64 (m.toInt - n.toInt)
  | mult, m, n => IsInt64 (m.toInt * n.toInt)
  | div, m, n | mod, m, n => ¬DivisionTraps m n

instance (op : Arithmetic) (m n : Int64) : Decidable (op.Holds m n) := by
  cases op <;> unfold Holds <;> infer_instance

end Arithmetic

/-- The quotient that does not fit is the one that the processor traps. -/
theorem isInt64_tdiv_iff (m n : Int64) (hn : n ≠ 0) :
    IsInt64 (m.toInt.tdiv n.toInt) ↔ ¬DivisionTraps m n := by
  constructor
  · rintro hfits ⟨rfl, rfl⟩
    revert hfits
    decide
  · intro htraps
    by_cases hm : m = Int64.minValue
    · rw [← Int64.toInt_div_of_ne_right m n (fun hone => htraps ⟨hm, hone⟩)]
      exact isInt64_toInt _
    · rw [← Int64.toInt_div_of_ne_left m n hm]
      exact isInt64_toInt _

section Operators

variable [Floating F D]

/-- On integers an operator is its operation of 64 bits. -/
theorem Arithmetic.apply_ints {op : Arithmetic} {x y : AVSValue F D} {m n : Int64}
    (hx : x.asLong = some m) (hy : y.asLong = some n) :
    op.apply x y = match op with
      | plus => .ok (keepSmaller (m + n))
      | minus => .ok (keepSmaller (m - n))
      | mult => .ok (keepSmaller (m * n))
      | div => divideInts (· / ·) m n
      | mod => divideInts (· % ·) m n := by
  cases op with
  | plus => simp only [apply, expPlus, onNumbers, hx, hy]
  | minus => simp only [apply, expMinus, onNumbers, hx, hy]
  | mult => simp only [apply, expMult, onNumbers, hx, hy]
  | div => simp only [apply, expDiv, onNumbers, hx, hy]
  | mod => simp only [apply, expMod, hx, hy]

omit [Floating F D] in
/-- A division of integers is right unless the processor traps it. -/
theorem divideInts_meets_iff (op : Arithmetic) {divide : Int64 → Int64 → Int64} {m n : Int64}
    (hguard : op.Guarded n ↔ n = 0)
    (hdefined : op.Defined m n ↔ n ≠ 0 ∧ IsInt64 (m.toInt.tdiv n.toInt))
    (hexact : ¬DivisionTraps m n → (divide m n).toInt = op.exact m.toInt n.toInt) :
    op.Meets m n (divideInts divide m n : Result F D (AVSValue F D)) ↔ ¬DivisionTraps m n := by
  unfold Meets divideInts
  rw [hguard, hdefined]
  by_cases hn : n = 0
  · have htraps : ¬DivisionTraps m n := by
      rintro ⟨-, hone⟩
      rw [hone] at hn
      exact absurd hn (by decide)
    exact iff_of_true ⟨fun hne => absurd hn hne, Or.inl ⟨_, if_pos hn⟩⟩ htraps
  · rw [isInt64_tdiv_iff m n hn]
    by_cases htraps : DivisionTraps m n
    · simp [hn, htraps]
    · have hstores := @keepSmaller_stores F D (divide m n)
      rw [hexact htraps] at hstores
      simp [hn, htraps, hstores]

omit [Floating F D] in
/-- An operation that wraps is right exactly where it does not wrap. -/
theorem wrapping_meets_iff (op : Arithmetic) {result m n : Int64}
    (hguard : ¬op.Guarded n)
    (hdefined : op.Defined m n ↔ IsInt64 (op.exact m.toInt n.toInt))
    (hresult : result.toInt = i64 (op.exact m.toInt n.toInt)) :
    op.Meets m n (.ok (keepSmaller result) : Result F D (AVSValue F D)) ↔
      IsInt64 (op.exact m.toInt n.toInt) := by
  have hstores : (keepSmaller result : AVSValue F D).Stores (op.exact m.toInt n.toInt) ↔
      IsInt64 (op.exact m.toInt n.toInt) := by
    rw [keepSmaller_stores_iff, hresult, i64_eq_self_iff]
  simp [Meets, hguard, hdefined, hstores]

/-- An operator on two integers meets its purpose exactly on the operands of `Holds`. -/
theorem Arithmetic.meets_iff {op : Arithmetic} {x y : AVSValue F D} {m n : Int64}
    (hx : x.asLong = some m) (hy : y.asLong = some n) :
    op.Meets m n (op.apply x y) ↔ op.Holds m n := by
  rw [apply_ints hx hy]
  cases op with
  | plus => exact wrapping_meets_iff plus (by simp [Guarded]) Iff.rfl (Int64.toInt_add m n)
  | minus => exact wrapping_meets_iff minus (by simp [Guarded]) Iff.rfl (Int64.toInt_sub m n)
  | mult => exact wrapping_meets_iff mult (by simp [Guarded]) Iff.rfl (Int64.toInt_mul m n)
  | div =>
    refine divideInts_meets_iff div Iff.rfl Iff.rfl fun htraps => ?_
    by_cases hm : m = Int64.minValue
    · exact Int64.toInt_div_of_ne_right m n fun hone => htraps ⟨hm, hone⟩
    · exact Int64.toInt_div_of_ne_left m n hm
  | mod => exact divideInts_meets_iff mod Iff.rfl Iff.rfl fun _ => Int64.toInt_mod m n

/-- What unary minus has to do on an integer. -/
def NegateMeets (m : Int64) (result : Result F D (AVSValue F D)) : Prop :=
  IsInt64 (-m.toInt) ∧
    ((∃ msg, result = .error (.avisynthError msg)) ∨
      ∃ v, result = .ok v ∧ v.Stores (-m.toInt))

theorem isInt64_neg_iff (m : Int64) : IsInt64 (-m.toInt) ↔ m ≠ Int64.minValue := by
  rw [← Int64.toInt_inj.ne, Int64.toInt_minValue]
  have hlow := m.le_toInt
  have hhigh := m.toInt_lt
  unfold IsInt64
  omega

/-- Unary minus of an integer meets its purpose except on the smallest one. -/
theorem expNegate_meets_iff {x : AVSValue F D} {m : Int64} (hx : x.asLong = some m) :
    NegateMeets m (expNegate x) ↔ m ≠ Int64.minValue := by
  have hstores : (keepSmaller (-m) : AVSValue F D).Stores (-m.toInt) ↔ IsInt64 (-m.toInt) := by
    rw [keepSmaller_stores_iff, Int64.toInt_neg]
    exact i64_eq_self_iff
  simp [NegateMeets, expNegate, hx, hstores, isInt64_neg_iff]

/-- On integers of any type, each operator raises an `AvisynthError` or gives the exact
result in the smaller type, through defined operations only, exactly if no sum,
difference, product or negation leaves 64 bits and the smallest number is not divided by -1. -/
theorem operators_exact_iff :
    (∀ (op : Arithmetic) (x y : AVSValue F D) (m n : Int64),
      x.asLong = some m → y.asLong = some n →
        (op.Meets m n (op.apply x y) ↔ op.Holds m n)) ∧
      ∀ (x : AVSValue F D) (m : Int64), x.asLong = some m →
        (NegateMeets m (expNegate x) ↔ m ≠ Int64.minValue) :=
  ⟨fun _ _ _ _ _ hx hy => meets_iff hx hy, fun _ _ hx => expNegate_meets_iff hx⟩

/-- The sum of a long and an int, and the negation of an int, inside the range. -/
theorem operators_exact_small :
    plus.Meets 4294967296 1
        (plus.apply (.long 4294967296 : AVSValue Float32 Float) (.int 1)) ∧
      NegateMeets 7 (expNegate (.int 7 : AVSValue Float32 Float)) :=
  ⟨(operators_exact_iff.1 .plus (.long 4294967296) (.int 1) _ _ rfl rfl).2 (by decide),
    (operators_exact_iff.2 (.int 7) _ rfl).2 (by decide)⟩

/-- The sum past the largest number wraps, and the smallest number cannot be negated, nor
divided by -1, with or without the remainder. -/
theorem operators_not_exact :
    ¬plus.Meets Int64.maxValue 1
        (plus.apply (.long Int64.maxValue : AVSValue Float32 Float) (.int 1)) ∧
      ¬div.Meets Int64.minValue (-1)
        (div.apply (.long Int64.minValue : AVSValue Float32 Float) (.int (-1))) ∧
      ¬mod.Meets Int64.minValue (-1)
        (mod.apply (.long Int64.minValue : AVSValue Float32 Float) (.int (-1))) ∧
      ¬NegateMeets Int64.minValue
        (expNegate (.long Int64.minValue : AVSValue Float32 Float)) := by
  refine ⟨?_, ?_, ?_, ?_⟩
  · rw [meets_iff rfl rfl]
    decide
  · rw [meets_iff rfl rfl]
    decide
  · rw [meets_iff rfl rfl]
    decide
  · rw [expNegate_meets_iff rfl]
    simp

end Operators

end Language

end AviSynth
