import AviSynth.Library.MachineInt
import AviSynth.Library.Runs
import AviSynth.Library.WideInt
import Mathlib.Algebra.Order.Ring.Abs

/-!
# The integer interpolation of `Animate`

`Animate` interpolates between two 64-bit integers with a factor of 2^32 for one. The
products and their sum are computed by hand from 64-bit words.
-/

namespace AviSynth

/-- `my_int128_t`. -/
abbrev MyInt128 := WideInt 64

/-- The absolute value of a signed number, as `uint64_t`. -/
def abs64 (a : BitVec 64) : BitVec 64 := if a.slt 0#64 then -a else a

/-- The product in `mul_64_64_to_128`, from 32-bit parts. -/
def mulAbs (absA absB : BitVec 64) : MyInt128 :=
  let aLo := absA &&& 0xFFFFFFFF#64
  let aHi := absA >>> 32
  let bLo := absB &&& 0xFFFFFFFF#64
  let bHi := absB >>> 32
  let loLo := aLo * bLo
  let hiLo := aHi * bLo
  let loHi := aLo * bHi
  let hiHi := aHi * bHi
  let mid := (loLo >>> 32) + (hiLo &&& 0xFFFFFFFF#64) + (loHi &&& 0xFFFFFFFF#64)
  let carry := mid >>> 32
  { L := (loLo &&& 0xFFFFFFFF#64) ||| ((mid &&& 0xFFFFFFFF#64) <<< 32)
    H := (hiLo >>> 32) + (loHi >>> 32) + hiHi + carry }

/-- The 128-bit product. -/
def mul64To128 (a b : BitVec 64) : MyInt128 :=
  let result := mulAbs (abs64 a) (abs64 b)
  if xor (a.slt 0#64) (b.slt 0#64) then result.neg else result

def add128 (a b : MyInt128) : MyInt128 := a.add b

/-- The low half of an arithmetic shift. -/
def shiftRight128 (a : MyInt128) (shift : ℕ) : BitVec 64 :=
  if 64 ≤ shift then a.H.sshiftRight (shift - 64) else a.shiftRight shift

/-- `ANIMATE_INT_ARITH_SCALEBITS`. -/
def animateIntArithScalebits : ℕ := 32

def animateFullScale : BitVec 64 := 1 <<< animateIntArithScalebits

def animateRound : BitVec 64 := animateFullScale >>> 1

/-- The rounding constant added, with its carry. -/
def addRound (temp : MyInt128) : MyInt128 where
  H := if temp.L + animateRound < animateRound then temp.H + 1 else temp.H
  L := temp.L + animateRound

/-- `Muldiv_64_32_integer_arithm`. -/
def muldiv6432IntegerArithm (a b factor : BitVec 64) : BitVec 64 :=
  if factor = 0 then a
  else if factor = animateFullScale then b
  else
    let tempA := mul64To128 a (animateFullScale - factor)
    let tempB := mul64To128 b factor
    shiftRight128 (addRound (add128 tempA tempB)) animateIntArithScalebits

theorem slt_zero_iff (a : BitVec 64) : a.slt 0#64 = true ↔ a.toInt < 0 := by
  rw [BitVec.slt_iff_toInt_lt, BitVec.toInt_zero]

theorem toNat_abs64 (a : BitVec 64) : (abs64 a).toNat = a.toInt.natAbs := by
  have hlt := a.isLt
  have hcond := BitVec.toInt_eq_toNat_cond a
  rw [abs64]
  split_ifs with hneg
  · rw [slt_zero_iff] at hneg
    rw [BitVec.toNat_neg]
    split_ifs at hcond <;> omega
  · rw [slt_zero_iff] at hneg
    split_ifs at hcond <;> omega

/-! ### The product -/

theorem toNat_lowPart (a : BitVec 64) : (a &&& 0xFFFFFFFF#64).toNat = a.toNat % 2 ^ 32 := by
  rw [BitVec.toNat_and]
  exact Nat.and_two_pow_sub_one_eq_mod _ 32

theorem toNat_lowPart_lt (a : BitVec 64) : (a &&& 0xFFFFFFFF#64).toNat < 2 ^ 32 := by
  rw [toNat_lowPart]
  omega

theorem toNat_highPart (a : BitVec 64) : (a >>> 32).toNat = a.toNat / 2 ^ 32 := by
  rw [BitVec.toNat_ushiftRight, Nat.shiftRight_eq_div_pow]

theorem toNat_highPart_lt (a : BitVec 64) : (a >>> 32).toNat < 2 ^ 32 := by
  rw [toNat_highPart]
  omega

/-- A product of two parts fits into a word. -/
theorem toNat_mul_parts {a b : BitVec 64} (ha : a.toNat < 2 ^ 32) (hb : b.toNat < 2 ^ 32) :
    (a * b).toNat = a.toNat * b.toNat := by
  rw [BitVec.toNat_mul, Nat.mod_eq_of_lt]
  calc a.toNat * b.toNat < 2 ^ 32 * 2 ^ 32 := Nat.mul_lt_mul'' ha hb
    _ = 2 ^ 64 := by norm_num

/-- A word put together from two parts. -/
theorem toNat_join {a b : BitVec 64} (ha : a.toNat < 2 ^ 32) (hb : b.toNat < 2 ^ 32) :
    (a ||| b <<< 32).toNat = 2 ^ 32 * b.toNat + a.toNat := by
  have hword : b.toNat <<< 32 < 2 ^ 64 := by
    rw [Nat.shiftLeft_eq]
    omega
  rw [BitVec.toNat_or, BitVec.toNat_shiftLeft, Nat.mod_eq_of_lt hword, Nat.or_comm,
    ← Nat.shiftLeft_add_eq_or_of_lt ha, Nat.shiftLeft_eq, Nat.mul_comm]

/-- The middle digit, with what it carries. -/
theorem toNat_mid (loLo hiLo loHi : BitVec 64) :
    ((loLo >>> 32) + (hiLo &&& 0xFFFFFFFF#64) + (loHi &&& 0xFFFFFFFF#64)).toNat =
      loLo.toNat / 2 ^ 32 + hiLo.toNat % 2 ^ 32 + loHi.toNat % 2 ^ 32 := by
  have hlt := loLo.isLt
  rw [BitVec.toNat_add, BitVec.toNat_add, toNat_highPart, toNat_lowPart, toNat_lowPart]
  omega

/-- The product of absolute values is exact. -/
theorem mulAbs_toNat (a b : BitVec 64) :
    2 ^ 64 * (mulAbs a b).H.toNat + (mulAbs a b).L.toNat = a.toNat * b.toNat := by
  have haLo := toNat_lowPart_lt a
  have hbLo := toNat_lowPart_lt b
  have haHi := toNat_highPart_lt a
  have hbHi := toNat_highPart_lt b
  have hfits : a.toNat * b.toNat < 2 ^ 64 * 2 ^ 64 := Nat.mul_lt_mul'' a.isLt b.isLt
  have hproduct := WideInt.longProduct (2 ^ 32) a.toNat b.toNat
  dsimp only at hproduct
  rw [← toNat_lowPart, ← toNat_lowPart, ← toNat_highPart, ← toNat_highPart,
    ← toNat_mul_parts haLo hbLo, ← toNat_mul_parts haHi hbLo, ← toNat_mul_parts haLo hbHi,
    ← toNat_mul_parts haHi hbHi] at hproduct
  rw [← toNat_mid, ← toNat_highPart, ← toNat_highPart, ← toNat_highPart, ← toNat_lowPart,
    ← toNat_lowPart] at hproduct
  have hlow : (mulAbs a b).L.toNat = _ := toNat_join (toNat_lowPart_lt _) (toNat_lowPart_lt _)
  rw [hlow]
  simp only [mulAbs, BitVec.toNat_add]
  omega

/-- The product is exact. -/
theorem value_mul64To128 (a b : BitVec 64) : (mul64To128 a b).value = a.toInt * b.toInt := by
  have hproduct := mulAbs_toNat (abs64 a) (abs64 b)
  rw [toNat_abs64, toNat_abs64, ← Int.natAbs_mul] at hproduct
  have halow := a.le_two_mul_toInt
  have hahigh := a.two_mul_toInt_lt
  have hblow := b.le_two_mul_toInt
  have hbhigh := b.two_mul_toInt_lt
  have hbound : |a.toInt * b.toInt| ≤ 2 ^ 63 * 2 ^ 63 := by
    rw [abs_mul]
    exact mul_le_mul (abs_le.mpr ⟨by omega, by omega⟩) (abs_le.mpr ⟨by omega, by omega⟩)
      (abs_nonneg _) (by norm_num)
  have hnonneg := abs_nonneg (a.toInt * b.toInt)
  -- the high word of the absolute value is not negative
  have hvalue : (mulAbs (abs64 a) (abs64 b)).value = |a.toInt * b.toInt| := by
    refine WideInt.value_eq_of_modEq ?_ (by omega) (by omega)
    rw [Int.abs_eq_natAbs, ← hproduct, WideInt.value]
    push_cast
    rw [mul_comm]
    exact (WideInt.toInt_modEq_toNat _).mul_left'.add_right _
  have hneg : (mulAbs (abs64 a) (abs64 b)).neg.value = -|a.toInt * b.toInt| := by
    refine WideInt.value_eq_of_modEq ?_ (by omega) (by omega)
    rw [← hvalue]
    exact WideInt.value_neg_modEq _
  have hasign := slt_zero_iff a
  have hbsign := slt_zero_iff b
  rw [mul64To128]
  cases ha : a.slt 0#64 <;> cases hb : b.slt 0#64 <;> simp only [ha, hb, Bool.false_eq_true,
    false_iff, true_iff, not_lt] at hasign hbsign
  · exact hvalue.trans (abs_of_nonneg (mul_nonneg hasign hbsign))
  · refine hneg.trans ?_
    rw [abs_of_nonpos (mul_nonpos_of_nonneg_of_nonpos hasign hbsign.le), neg_neg]
  · refine hneg.trans ?_
    rw [abs_of_nonpos (mul_nonpos_of_nonpos_of_nonneg hasign.le hbsign), neg_neg]
  · exact hvalue.trans (abs_of_nonneg (mul_nonneg_of_nonpos_of_nonpos hasign.le hbsign.le))

/-- The shift divides. -/
theorem toInt_shiftRight128 (x : MyInt128) (hlow : -2 ^ 63 ≤ x.value / 2 ^ 32)
    (hhigh : x.value / 2 ^ 32 < 2 ^ 63) :
    (shiftRight128 x animateIntArithScalebits).toInt = x.value / 2 ^ 32 :=
  WideInt.toInt_eq_of_modEq (x.toInt_shiftRight_modEq (by decide)) (by omega) (by omega)

/-! ### The interpolation -/

/-- The weighted mean of two numbers, rounded to the next integer. -/
def interpolate (a b factor : ℤ) : ℤ := (a * (2 ^ 32 - factor) + b * factor + 2 ^ 31) / 2 ^ 32

theorem interpolate_zero (a b : ℤ) : interpolate a b 0 = a := by
  rw [interpolate]
  omega

theorem interpolate_fullScale (a b : ℤ) : interpolate a b (2 ^ 32) = b := by
  rw [interpolate]
  omega

/-- From the one number to the other the mean does not turn back. -/
theorem interpolate_mono {a b f g : ℤ} (hab : a ≤ b) (hfg : f ≤ g) :
    interpolate a b f ≤ interpolate a b g := by
  refine Int.ediv_le_ediv (by norm_num) ?_
  nlinarith

theorem interpolate_anti {a b f g : ℤ} (hba : b ≤ a) (hfg : f ≤ g) :
    interpolate a b g ≤ interpolate a b f := by
  refine Int.ediv_le_ediv (by norm_num) ?_
  nlinarith

/-- The mean lies between the two numbers. -/
theorem interpolate_between {a b f low high : ℤ} (ha : low ≤ a ∧ a ≤ high)
    (hb : low ≤ b ∧ b ≤ high) (hf : 0 ≤ f ∧ f ≤ 2 ^ 32) :
    low ≤ interpolate a b f ∧ interpolate a b f ≤ high := by
  obtain hab | hba := le_total a b
  · have hfirst := interpolate_mono hab hf.1
    have hlast := interpolate_mono hab hf.2
    rw [interpolate_zero] at hfirst
    rw [interpolate_fullScale] at hlast
    omega
  · have hfirst := interpolate_anti hba hf.1
    have hlast := interpolate_anti hba hf.2
    rw [interpolate_zero] at hfirst
    rw [interpolate_fullScale] at hlast
    omega

theorem addRound_eq (x : MyInt128) : addRound x = WideInt.add ⟨0, animateRound⟩ x := by
  by_cases h : x.L + animateRound < animateRound <;>
    simp [addRound, WideInt.add, BitVec.add_comm animateRound, h]

theorem value_addRound (x : MyInt128) :
    (addRound x).value ≡ x.value + 2 ^ 31 [ZMOD 2 ^ 64 * 2 ^ 64] := by
  rw [addRound_eq, add_comm x.value]
  exact WideInt.value_add_modEq ⟨0, animateRound⟩ x

/-- Up to a factor of one the interpolation is exact. -/
theorem toInt_muldiv (a b factor : BitVec 64) (hfactor : factor.toNat ≤ 2 ^ 32) :
    (muldiv6432IntegerArithm a b factor).toInt = interpolate a.toInt b.toInt factor.toNat := by
  have halow := a.le_two_mul_toInt
  have hahigh := a.two_mul_toInt_lt
  have hblow := b.le_two_mul_toInt
  have hbhigh := b.two_mul_toInt_lt
  have hfull : animateFullScale.toNat = 2 ^ 32 := rfl
  obtain ⟨hlow, hhigh⟩ : -2 ^ 63 ≤ interpolate a.toInt b.toInt factor.toNat ∧
      interpolate a.toInt b.toInt factor.toNat ≤ 2 ^ 63 - 1 :=
    interpolate_between ⟨by omega, by omega⟩ ⟨by omega, by omega⟩ ⟨by omega, by omega⟩
  rw [muldiv6432IntegerArithm]
  split_ifs with hzero hone
  · rw [hzero]
    exact (interpolate_zero _ _).symm
  · rw [hone, hfull]
    exact (interpolate_fullScale _ _).symm
  · have hrest : (animateFullScale - factor).toNat = 2 ^ 32 - factor.toNat := by
      rw [BitVec.toNat_sub_of_le (by rw [BitVec.le_def, hfull]; exact hfactor), hfull]
    have hrestInt : (animateFullScale - factor).toInt = 2 ^ 32 - factor.toNat := by
      rw [BitVec.toInt_eq_toNat_of_lt (by omega), hrest]
      omega
    have hfactorInt : factor.toInt = factor.toNat := BitVec.toInt_eq_toNat_of_lt (by omega)
    -- the sum that is divided by the shift
    have hsum : (addRound (add128 (mul64To128 a (animateFullScale - factor))
        (mul64To128 b factor))).value =
        a.toInt * (2 ^ 32 - factor.toNat) + b.toInt * factor.toNat + 2 ^ 31 := by
      rw [interpolate] at hlow hhigh
      refine WideInt.value_eq_of_modEq ((value_addRound _).trans (Int.ModEq.add_right _ ?_))
        (by omega) (by omega)
      rw [← hrestInt, ← hfactorInt, ← value_mul64To128, ← value_mul64To128]
      exact WideInt.value_add_modEq _ _
    dsimp only
    rw [toInt_shiftRight128 _ (by rw [hsum]; exact hlow)
      (by rw [hsum]; exact Int.lt_of_le_sub_one hhigh), hsum, interpolate]

/-- The integer interpolation is the weighted mean, rounded to the next integer. It starts
at the one number, ends at the other and does not turn back on its way. -/
theorem muldiv_interpolates (a b : BitVec 64) :
    (∀ f : BitVec 64, f.toNat ≤ 2 ^ 32 →
      (muldiv6432IntegerArithm a b f).toInt =
        (a.toInt * (2 ^ 32 - f.toNat) + b.toInt * f.toNat + 2 ^ 31) / 2 ^ 32) ∧
    muldiv6432IntegerArithm a b 0 = a ∧
    muldiv6432IntegerArithm a b (1 <<< 32) = b ∧
    ∀ f g : BitVec 64, f.toNat ≤ g.toNat → g.toNat ≤ 2 ^ 32 →
      (a.toInt ≤ b.toInt →
        (muldiv6432IntegerArithm a b f).toInt ≤ (muldiv6432IntegerArithm a b g).toInt) ∧
      (b.toInt ≤ a.toInt →
        (muldiv6432IntegerArithm a b g).toInt ≤ (muldiv6432IntegerArithm a b f).toInt) := by
  refine ⟨fun f hf => toInt_muldiv a b f hf, rfl, rfl, fun f g hfg hg => ?_⟩
  rw [toInt_muldiv a b f (hfg.trans hg), toInt_muldiv a b g hg]
  exact ⟨fun hab => interpolate_mono hab (by omega), fun hba => interpolate_anti hba (by omega)⟩

/-- Half the way from the least number to the greatest one. -/
theorem muldiv_interpolates_half :
    (muldiv6432IntegerArithm (BitVec.intMin 64) (BitVec.intMax 64) (1 <<< 31)).toInt =
        (-2 ^ 63 * (2 ^ 32 - 2 ^ 31) + (2 ^ 63 - 1) * 2 ^ 31 + 2 ^ 31) / 2 ^ 32 ∧
      (muldiv6432IntegerArithm (BitVec.intMin 64) (BitVec.intMax 64) 5).toInt ≤
        (muldiv6432IntegerArithm (BitVec.intMin 64) (BitVec.intMax 64) (1 <<< 31)).toInt := by
  obtain ⟨hexact, -, -, hmono⟩ := muldiv_interpolates (BitVec.intMin 64) (BitVec.intMax 64)
  exact ⟨hexact (1 <<< 31) (by decide), (hmono 5 (1 <<< 31) (by decide) (by decide)).1 (by decide)⟩

/-!
## The clips of `Animate`

`Animate` invokes a filter with arguments that change from frame to frame. A frame belongs
to a stage between the first and the last frame, and the clips of three stages are kept.
The slot of the stage that is furthest away is taken for a new one: it gets the number of
the stage, the filter is invoked, which may throw, and the slot gets the clip.
-/

open MachineInt

/-- The operations on `double` that `Animate` uses. -/
structure AnimateDoubles (D : Type) where
  ofInt : ℤ → D
  one : D
  add : D → D → D
  sub : D → D → D
  mul : D → D → D
  div : D → D → D
  lt : D → D → Bool
  /-- `(int64_t)(double(ANIMATE_FULL_SCALE) * x)`. -/
  toFactor : D → BitVec 64

/-- An argument of the filter. `other` stands for the types that `Animate` refuses. -/
inductive AnimateArg (D C : Type) where
  | int (value : BitVec 64)
  | float (value : D)
  | string (text : String)
  | bool (value : Bool)
  | clip (clip : C)
  | other
  deriving DecidableEq

/-- What `Animate` looks at in the `VideoInfo` of a clip. -/
structure AnimateSize where
  width : ℤ
  height : ℤ
  colorspace : ℕ

variable {D C : Type}

namespace AnimateArg

def isInt : AnimateArg D C → Bool
  | .int _ => true
  | _ => false

def isFloat : AnimateArg D C → Bool
  | .int _ | .float _ => true
  | _ => false

/-- The check that an argument has the same type before and after. -/
def mismatch : AnimateArg D C → AnimateArg D C → Option String
  | .string a, .string b =>
    if a ≠ b then some "Animate: string arguments must match before and after" else none
  | .bool a, .bool b =>
    if a ≠ b then some "Animate: boolean arguments must match before and after" else none
  | .clip _, .clip _ => none
  | a, b =>
    if a.isFloat && b.isFloat then none
    else some "Animate: must have two argument lists with matching types"

/-- `AsFloat`. -/
def asFloat (ops : AnimateDoubles D) : AnimateArg D C → D
  | .float x => x
  | .int i => ops.ofInt i.toInt
  | _ => ops.ofInt 0

end AnimateArg

/-- The value between two integers, which is moved back between them. -/
def interpolateInt (start end_ factor : BitVec 64) : BitVec 64 :=
  let interpolated := muldiv6432IntegerArithm start end_ factor
  let lower := if end_.slt start then end_ else start
  let upper := if start.slt end_ then end_ else start
  if interpolated.slt lower then lower else if upper.slt interpolated then upper else interpolated

/-- The value between two numbers of type `double`, which is moved back between them. -/
def interpolateFloat (ops : AnimateDoubles D) (start end_ stageMod : D) : D :=
  let interpolated := ops.add (ops.mul start (ops.sub ops.one stageMod)) (ops.mul end_ stageMod)
  let lower := if ops.lt end_ start then end_ else start
  let upper := if ops.lt start end_ then end_ else start
  if ops.lt interpolated lower then lower
  else if ops.lt upper interpolated then upper else interpolated

/-- One of `args_now`. -/
def interpolateArg (ops : AnimateDoubles D) (stageMod : D) :
    AnimateArg D C → AnimateArg D C → AnimateArg D C
  | .int a, .int b => .int (interpolateInt a b (ops.toFactor stageMod))
  | a, b =>
    if a.isFloat && b.isFloat then
      .float (interpolateFloat ops (a.asFloat ops) (b.asFloat ops) stageMod)
    else a

/-- The part of the filter that the constructor sets once. -/
structure AnimateSetup (D C : Type) where
  first : ℤ
  last : ℤ
  argsBefore : List (AnimateArg D C)
  argsAfter : List (AnimateArg D C)
  rangeLimit : Bool
  customFn : Option (D → D)

/-- The filter. A clip in the cache stands for the arguments it was built with; a null
pointer is `none`. -/
structure Animate (D C : Type) extends AnimateSetup D C where
  cacheStage : Fin 3 → ℤ
  cache : Fin 3 → Option (List (AnimateArg D C))

namespace Animate

/-- The checks that the constructor starts with. `customChecked` is what comes of the call of
the custom function. -/
def checkArguments (first last : ℤ) (argsBefore argsAfter : List (AnimateArg D C))
    (rangeLimit : Bool) (customFn : Option (D → D)) (customChecked : Except String Unit) :
    Except String Unit :=
  if first > last then throw "Animate: final frame number must be greater than initial."
  else if first = last ∧ !rangeLimit then
    throw "Animate: final frame cannot be the same as initial frame."
  else match (argsBefore.zip argsAfter).findSome? fun (a, b) => a.mismatch b with
    | some error => throw error
    | none => if customFn.isSome then customChecked else pure ()

/-- The check of `ApplyRange`. -/
def checkRange (context : Option (C × AnimateSize)) (size1 : AnimateSize) : Except String Unit :=
  match context with
  | none => pure ()
  | some (_, size) =>
    if size.width ≠ size1.width ∨ size.height ≠ size1.height then
      throw "ApplyRange: Filtered and unfiltered video frame sizes must match"
    else if size.colorspace ≠ size1.colorspace then
      throw "ApplyRange: Filtered and unfiltered video colorspace must match"
    else pure ()

/-- The error for clips that differ in size. -/
def checkSizes (size1 size2 : AnimateSize) : Except String Unit :=
  if size1.width ≠ size2.width ∨ size1.height ≠ size2.height then
    throw "Animate: initial and final video frame sizes must match"
  else pure ()

/-- The first clip, with the starting arguments. -/
def firstClip (setup : AnimateSetup D C) : Animate D C :=
  { setup with
    cacheStage := fun i => if i = 0 then 0 else -1
    cache := fun i => if i = 0 then some setup.argsBefore else none }

/-- The last clip, with the ending arguments. -/
def lastClip (a : Animate D C) : Animate D C :=
  { a with
    cacheStage := Function.update a.cacheStage 1 (i32 (a.last - a.first))
    cache := Function.update a.cache 1 (some a.argsAfter) }

/-- The constructor. `invoke` is what comes of an invocation of the filter. -/
def construct (context : Option (C × AnimateSize)) (first last : ℤ)
    (argsBefore argsAfter : List (AnimateArg D C)) (rangeLimit : Bool) (customFn : Option (D → D))
    (customChecked : Except String Unit)
    (invoke : List (AnimateArg D C) → Except String AnimateSize) :
    Except String (Animate D C) := do
  checkArguments first last argsBefore argsAfter rangeLimit customFn customChecked
  let contextArg := (context.map fun c => .clip c.1).toList
  let setup : AnimateSetup D C :=
    { first, last
      argsBefore := contextArg ++ argsBefore
      argsAfter := contextArg ++ argsAfter
      rangeLimit, customFn }
  let size1 ← invoke setup.argsBefore
  if rangeLimit then
    checkRange context size1
    pure (firstClip setup)
  else
    let size2 ← invoke setup.argsAfter
    checkSizes size1 size2
    pure (firstClip setup).lastClip

end Animate

namespace AnimateSetup

/-- The stage of a frame. -/
def stage (a : AnimateSetup D C) (n : ℤ) : ℤ := i32 (clampInt n a.first a.last - a.first)

/-- `args_now`, for a stage. -/
def argsNow (ops : AnimateDoubles D) (a : AnimateSetup D C) (stage : ℤ) :
    List (AnimateArg D C) :=
  let scale := i32 (a.last - a.first)
  let stageMod := ops.div (ops.ofInt stage) (ops.ofInt scale)
  let stageMod := match a.customFn with
    | none => stageMod
    | some custom => custom stageMod
  a.argsBefore.zipWith (interpolateArg ops stageMod) a.argsAfter

end AnimateSetup

namespace Animate

/-- The slot that has a stage, the first one of several. -/
def slot (a : Animate D C) (stage : ℤ) : Option (Fin 3) :=
  if a.cacheStage 0 = stage then some 0
  else if a.cacheStage 1 = stage then some 1
  else if a.cacheStage 2 = stage then some 2
  else none

/-- The distance of the stage of a slot. -/
def distance (a : Animate D C) (stage : ℤ) (i : Fin 3) : ℤ :=
  i32 |i32 (stage - a.cacheStage i)|

/-- The slot whose stage is furthest from `stage`. -/
def furthest (a : Animate D C) (stage : ℤ) : Fin 3 :=
  let furthest := if a.distance stage 1 > a.distance stage 0 then 1 else 0
  if a.distance stage 2 > a.distance stage furthest then 2 else furthest

end Animate

/-- A request for a frame, and whether the custom function, the invocation of the filter and
the request to the clip throw if they are reached. -/
structure AnimateRequest where
  n : ℤ
  customThrows : Bool
  invokeThrows : Bool
  frameThrows : Bool

/-- Where a frame comes from. -/
inductive AnimateSource (D C : Type) where
  | unfiltered
  | built (args : List (AnimateArg D C))
  deriving DecidableEq

/-- What comes of a request. A null pointer to a clip is not survived. -/
inductive AnimateEvent (D C : Type) where
  | delivered (n : ℤ) (source : AnimateSource D C)
  | thrown (n : ℤ)
  | nullClip (n : ℤ)
  deriving DecidableEq

namespace Animate

/-- A request to the clip of a slot. -/
def serve (a : Animate D C) (i : Fin 3) (request : AnimateRequest) : AnimateEvent D C :=
  match a.cache i with
  | none => .nullClip request.n
  | some args =>
    if request.frameThrows then .thrown request.n else .delivered request.n (.built args)

/-- `GetFrame`. -/
def getFrame (ops : AnimateDoubles D) (a : Animate D C) (request : AnimateRequest) :
    Animate D C × AnimateEvent D C :=
  if a.rangeLimit then
    if request.n < a.first ∨ a.last < request.n then
      (a, if request.frameThrows then .thrown request.n else .delivered request.n .unfiltered)
    else (a, a.serve 0 request)
  else
    let stage := a.stage request.n
    match a.slot stage with
    | some i => (a, a.serve i request)
    | none =>
      let furthest := a.furthest stage
      if a.customFn.isSome ∧ request.customThrows then (a, .thrown request.n)
      else
        let argsNow := a.argsNow ops stage
        let a := { a with cacheStage := Function.update a.cacheStage furthest stage }
        if request.invokeThrows then (a, .thrown request.n)
        else
          let a := { a with cache := Function.update a.cache furthest (some argsNow) }
          (a, a.serve furthest request)

/-- A request as a step of a run. -/
def step (ops : AnimateDoubles D) (a : Animate D C) (request : AnimateRequest) :
    Option (Animate D C × AnimateEvent D C) := some (a.getFrame ops request)

end Animate

end AviSynth
